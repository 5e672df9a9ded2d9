import LedgerScript.Curve.Key

/-!
Signatures: their tagged encoding, read leniently, and their verification.

An encoding is the tag 0x30 with a length, then two integers, each the tag 0x02 with a length and
that many bytes. The outer length is not checked and bytes after the second integer are ignored.
Lengths may be spelt with leading zeros, and so may the integers. A pair in which a number needs
more than 32 bytes or reaches the group's order is read as (0, 0), which verifies nothing.

A signature and the one with `s` negated verify the same digests, so `s` is taken as it comes.
-/
namespace LedgerScript.Curve

structure Signature where
  r : Nat
  s : Nat
deriving DecidableEq, Repr

/-- The bytes after the tag `0x30` and its length. -/
def afterOuterLength : Bytes → Option Bytes
  | tag :: length :: rest =>
    if tag ≠ 0x30 then none
    else if length < 0x80 then some rest
    else
      let size := length.toNat - 0x80
      if size ≤ rest.length then some (rest.drop size) else none
  | _ => none

/-- A length, and the bytes after it. -/
def readLength : Bytes → Option (Nat × Bytes)
  | [] => none
  | length :: rest =>
    if length < 0x80 then some (length.toNat, rest)
    else
      let size := length.toNat - 0x80
      if size ≤ rest.length then some (Bytes.toNatBE (rest.take size), rest.drop size) else none

/-- A tagged integer, and the bytes after it. -/
def readInteger : Bytes → Option (Nat × Bytes)
  | [] => none
  | tag :: rest =>
    if tag ≠ 0x02 then none
    else
      match readLength rest with
      | none => none
      | some (size, rest) =>
        if size ≤ rest.length then some (Bytes.toNatBE (rest.take size), rest.drop size) else none

def signatureOfBytes (bytes : Bytes) : Option Signature := do
  let rest ← afterOuterLength bytes
  let (r, rest) ← readInteger rest
  let (s, _) ← readInteger rest
  some (if r < order && s < order then ⟨r, s⟩ else ⟨0, 0⟩)

/-- Whether the signature of a digest, given as a number, is by the holder of the key. -/
def Signature.verifies (signature : Signature) (digest : Nat) (key : Point) : Bool :=
  if signature.r = 0 || signature.s = 0 then false
  else
    let w := inverse signature.s order
    let p := (Point.generator.times (digest * w % order)).plus
      (key.times (signature.r * w % order))
    match p.affineX? with
    | none => false
    | some x => x % order == signature.r

/-- Verifies an encoded signature against an encoded key; what cannot be read does not verify. -/
def verify (digest signature key : Bytes) : Bool :=
  match keyOfBytes key, signatureOfBytes signature with
  | some k, some s => s.verifies (Bytes.toNatBE digest) k
  | _, _ => false

end LedgerScript.Curve
