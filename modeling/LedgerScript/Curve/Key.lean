import LedgerScript.Bytes
import LedgerScript.Curve.Point

/-!
Public keys in their three encodings.

A compressed key is a parity byte (2 or 3) and one coordinate. A plain key is the byte 4 and both
coordinates; a hybrid key is a plain one whose first byte (6 or 7) also states the parity.
-/
namespace LedgerScript.Curve

/-- A point from both coordinates, if they are reduced and satisfy the equation. -/
def ofCoordinates (x y : Nat) : Option Point :=
  if x < fieldPrime && y < fieldPrime && onCurve x y then some ⟨x, y, 1⟩ else none

def keyOfBytes : Bytes → Option Point
  | [] => none
  | tag :: body =>
    if body.length = 32 ∧ (tag = 2 ∨ tag = 3) then
      let x := Bytes.toNatBE body
      if x < fieldPrime then liftX x (tag == 3) else none
    else if body.length = 64 ∧ (tag = 4 ∨ tag = 6 ∨ tag = 7) then
      let y := Bytes.toNatBE (body.drop 32)
      if tag = 4 ∨ tag.toNat % 2 = y % 2 then ofCoordinates (Bytes.toNatBE (body.take 32)) y
      else none
    else none

end LedgerScript.Curve
