import LedgerScript.Error

/-!
Decoders: computations that consume a byte string from its front.

A decoder answers a value or an error, and in both cases the bytes that are left: what was
consumed before a failure stays consumed.
-/
namespace LedgerScript

abbrev Decoder (α : Type) := EStateM Error Bytes α

namespace Decoder

variable {α β : Type}

/-- The next `n` bytes; a failure consumes nothing. -/
def take (n : Nat) : Decoder Bytes := fun input =>
  if n ≤ input.length then .ok (input.take n) (input.drop n)
  else .error (.truncated n input.length) input

def byte : Decoder UInt8 := fun input =>
  match input with
  | [] => .error (.truncated 1 0) []
  | b :: rest => .ok b rest

/-- The number spelt by the next `width` bytes, least significant first. -/
def natLE (width : Nat) : Decoder Nat := do
  let bytes ← take width
  pure (Bytes.toNatLE bytes)

/-- The values of `n` runs, in order. -/
def times (n : Nat) (one : Decoder α) : Decoder (List α) :=
  match n with
  | 0 => pure []
  | n + 1 => do
    let x ← one
    let xs ← times n one
    pure (x :: xs)

/-- The values of the given runs, in order. -/
def sequence : List (Decoder α) → Decoder (List α)
  | [] => pure []
  | d :: ds => do
    let x ← d
    let xs ← sequence ds
    pure (x :: xs)

/-- Decodes a whole byte string; bytes left over are an error. -/
def whole (d : Decoder α) (input : Bytes) : Except Error α :=
  match d input with
  | .error e _ => .error e
  | .ok x [] => .ok x
  | .ok _ rest => .error (.trailing rest.length)

theorem take_append (front rest : Bytes) :
    take front.length (front ++ rest) = .ok front rest := by
  simp [take]

theorem take_of_lt {n : Nat} {input : Bytes} (h : input.length < n) :
    take n input = .error (.truncated n input.length) input := by
  simp [take, Nat.not_le.mpr h]

theorem natLE_append (width n : Nat) (rest : Bytes) :
    natLE width (Bytes.ofNatLE width n ++ rest) = .ok (n % Bytes.modulus width) rest := by
  have h := take_append (Bytes.ofNatLE width n) rest
  rw [Bytes.length_ofNatLE] at h
  simp [natLE, bind, EStateM.bind, h, pure, EStateM.pure, Bytes.toNatLE_ofNatLE]

end Decoder
end LedgerScript
