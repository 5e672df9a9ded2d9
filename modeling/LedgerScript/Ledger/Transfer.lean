import LedgerScript.Wire.CompactSize

namespace LedgerScript

/-- A digest of 32 bytes. -/
structure Hash where
  bytes : Bytes
  length_eq : bytes.length = 32
deriving DecidableEq, Repr

namespace Hash

def zero : Hash := ⟨List.replicate 32 0, rfl⟩

/-- The byte-reversed form in which digests are displayed. -/
def display (hash : Hash) : String := Hex.encode hash.bytes.reverse

def read : Decoder Hash := fun input =>
  if h : 32 ≤ input.length then .ok ⟨input.take 32, List.length_take_of_le h⟩ (input.drop 32)
  else .error (.truncated 32 input.length) input

theorem read_append (hash : Hash) (rest : Bytes) : read (hash.bytes ++ rest) = .ok hash rest := by
  have length := hash.length_eq
  simp [read, length]

end Hash

/-- The output of an earlier transaction that an input spends. -/
structure OutPoint where
  hash : Hash
  index : UInt32
deriving DecidableEq, Repr

/-- The out-point that names no output. -/
def OutPoint.null : OutPoint := ⟨Hash.zero, 0xffffffff⟩

def OutPoint.isNull (outPoint : OutPoint) : Bool := outPoint == OutPoint.null

structure Input where
  outPoint : OutPoint
  script : Bytes
  sequence : UInt32
deriving DecidableEq, Repr

structure Output where
  amount : Int64
  script : Bytes
deriving DecidableEq, Repr

def word32 (n : UInt32) : Bytes := Bytes.ofNatLE 4 n.toNat

def readWord32 : Decoder UInt32 := do
  let n ← Decoder.natLE 4
  pure (UInt32.ofNat n)

def word64 (n : Int64) : Bytes := Bytes.ofNatLE 8 n.toUInt64.toNat

def readWord64 : Decoder Int64 := do
  let n ← Decoder.natLE 8
  pure (UInt64.ofNat n).toInt64

theorem readWord32_append (n : UInt32) (rest : Bytes) :
    readWord32 (word32 n ++ rest) = .ok n rest := by
  have h : n.toNat % Bytes.modulus 4 = n.toNat := Nat.mod_eq_of_lt n.toNat_lt
  simp only [readWord32, word32, bind, EStateM.bind, Decoder.natLE_append, h, pure, EStateM.pure,
    UInt32.ofNat_toNat]

theorem readWord64_append (n : Int64) (rest : Bytes) :
    readWord64 (word64 n ++ rest) = .ok n rest := by
  have h : n.toUInt64.toNat % Bytes.modulus 8 = n.toUInt64.toNat :=
    Nat.mod_eq_of_lt n.toUInt64.toNat_lt
  simp only [readWord64, word64, bind, EStateM.bind, Decoder.natLE_append, h, pure, EStateM.pure,
    UInt64.ofNat_toNat, Int64.toInt64_toUInt64]

namespace Input

def encode (input : Input) : Bytes :=
  input.outPoint.hash.bytes ++ word32 input.outPoint.index
    ++ CompactSize.encodeBytes input.script ++ word32 input.sequence

def read : Decoder Input := do
  let hash ← Hash.read
  let index ← readWord32
  let script ← CompactSize.readBytes
  let sequence ← readWord32
  pure ⟨⟨hash, index⟩, script, sequence⟩

end Input

namespace Output

def encode (output : Output) : Bytes :=
  word64 output.amount ++ CompactSize.encodeBytes output.script

def read : Decoder Output := do
  let amount ← readWord64
  let script ← CompactSize.readBytes
  pure ⟨amount, script⟩

end Output
end LedgerScript
