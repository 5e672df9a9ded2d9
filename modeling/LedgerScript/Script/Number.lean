import LedgerScript.Error

/-!
Script numbers: little-endian magnitudes whose highest bit is the sign.

Zero is the empty string. Every number has one shortest form; readers accept longer ones and
negative zeros too. An item is true unless it spells zero.
-/
namespace LedgerScript.Script

/-- Puts the sign on the last byte of a magnitude, or on a byte of its own where the last one is
full. -/
def withSign (negative : Bool) : Bytes → Bytes
  | [] => []
  | [last] =>
    if 0x80 ≤ last then [last, if negative then 0x80 else 0]
    else [if negative then last ||| 0x80 else last]
  | b :: rest => b :: withSign negative rest

/-- The shortest form of a number. -/
def ofNumber (n : Int) : Bytes :=
  withSign (n < 0) (Bytes.ofNatLE (Bytes.width n.natAbs) n.natAbs)

/-- Whether the highest bit is set. -/
def isNegative (bytes : Bytes) : Bool := 0x80 ≤ bytes.getLastD 0

/-- The number that the bits below the highest spell. -/
def magnitude (bytes : Bytes) : Nat := Bytes.toNatLE bytes % (Bytes.modulus bytes.length / 2)

/-- The number that a string spells. -/
def number (bytes : Bytes) : Int :=
  if isNegative bytes then -(magnitude bytes : Int) else magnitude bytes

/-- The number that a string of bounded length spells. -/
def toNumber (limit : Nat) (bytes : Bytes) : Except Error Int :=
  if limit < bytes.length then .error (.script (.numberTooLong bytes.length limit))
  else .ok (number bytes)

/-- Whether an item counts as true: some byte is not zero, the sign bit not counting. -/
def isTrue : Bytes → Bool
  | [] => false
  | [last] => last != 0 && last != 0x80
  | b :: rest => b != 0 || isTrue rest

/-- The item of a truth value. -/
def ofBool (b : Bool) : Bytes := if b then [1] else []

theorem isTrue_iff (bytes : Bytes) :
    isTrue bytes = true ↔
      (∃ b ∈ bytes.dropLast, b ≠ 0) ∨ ∃ b ∈ bytes.getLast?, b ≠ 0 ∧ b ≠ 0x80 := by
  induction bytes with
  | nil => simp [isTrue]
  | cons b rest ih =>
    cases rest with
    | nil => simp [isTrue]
    | cons c rest => simp [isTrue, ih, List.getLast?_cons_cons, or_assoc]

end LedgerScript.Script
