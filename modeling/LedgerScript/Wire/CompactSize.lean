import LedgerScript.Wire.Decoder
import LedgerScript.Wire.Written

/-!
Compact sizes: numbers below 2⁶⁴ in one, three, five or nine bytes.

Numbers below 0xfd stand for themselves; the first bytes 0xfd, 0xfe and 0xff announce two, four
and eight bytes. Readers also accept forms that are longer than needed.
-/
namespace LedgerScript.CompactSize

/-- The shortest form of a number. -/
def encode (n : Nat) : Bytes :=
  if n < 0xfd then [UInt8.ofNat n]
  else if n ≤ 0xffff then 0xfd :: Bytes.ofNatLE 2 n
  else if n ≤ 0xffffffff then 0xfe :: Bytes.ofNatLE 4 n
  else 0xff :: Bytes.ofNatLE 8 n

def read : Decoder Nat := do
  let first ← Decoder.byte
  if first = 0xfd then Decoder.natLE 2
  else if first = 0xfe then Decoder.natLE 4
  else if first = 0xff then Decoder.natLE 8
  else pure first.toNat

/-- A count of things that take at least a byte each: no more than there are bytes left. -/
def readCount : Decoder Nat := do
  let n ← read
  let rest ← get
  if n ≤ rest.length then pure n else throw (.truncated n rest.length)

/-- Bytes with their count in front. -/
def readBytes : Decoder Bytes := do
  let n ← readCount
  Decoder.take n

def encodeBytes (bytes : Bytes) : Bytes := encode bytes.length ++ bytes

theorem length_encode (n : Nat) :
    (encode n).length = if n < 0xfd then 1 else if n ≤ 0xffff then 3
      else if n ≤ 0xffffffff then 5 else 9 := by
  unfold encode
  repeat' split
  all_goals simp

theorem encode_ne_nil (n : Nat) : encode n ≠ [] := by
  unfold encode
  repeat' split
  all_goals simp

theorem read_encode (n : Nat) (h : n < UInt64.size) (rest : Bytes) :
    read (encode n ++ rest) = .ok n rest := by
  have exact (width : Nat) (hn : n < Bytes.modulus width) :
      Decoder.natLE width (Bytes.ofNatLE width n ++ rest) = .ok n rest := by
    rw [Decoder.natLE_append, Nat.mod_eq_of_lt hn]
  unfold encode
  split
  · next small =>
    have first : (UInt8.ofNat n).toNat = n := by
      show n % 256 = n
      omega
    have apart (k : UInt8) (hk : 0xfd ≤ k.toNat) : UInt8.ofNat n ≠ k := by
      intro eq
      rw [eq] at first
      omega
    simp only [read, bind, EStateM.bind, Decoder.byte, List.cons_append, List.nil_append,
      apart 0xfd (by decide), apart 0xfe (by decide), apart 0xff (by decide), ↓reduceIte,
      pure, EStateM.pure, first]
  · split
    · exact exact 2 (by show n < 0x10000; omega)
    · split
      · exact exact 4 (by show n < 0x100000000; omega)
      · exact exact 8 h

end LedgerScript.CompactSize
