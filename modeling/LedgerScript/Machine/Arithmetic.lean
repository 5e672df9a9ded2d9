import LedgerScript.Machine.State
import LedgerScript.Machine.Handler

/-!
Operations on numbers.

Operands are numbers of at most four bytes. Truth values are written as one and zero, and any
number but zero is read as true.
-/
namespace LedgerScript

def ofTruth (b : Bool) : Int := if b then 1 else 0

def UnaryNumber.apply : UnaryNumber → Int → Int
  | .increment, a => a + 1
  | .decrement, a => a - 1
  | .negate, a => -a
  | .abs, a => a.natAbs
  | .not, a => ofTruth (a == 0)
  | .isNonzero, a => ofTruth (a != 0)

def BinaryNumber.apply : BinaryNumber → Int → Int → Int
  | .add, a, b => a + b
  | .sub, a, b => a - b
  | .and, a, b => ofTruth (a != 0 && b != 0)
  | .or, a, b => ofTruth (a != 0 || b != 0)
  | .equal, a, b => ofTruth (a == b)
  | .notEqual, a, b => ofTruth (a != b)
  | .less, a, b => ofTruth (a < b)
  | .greater, a, b => ofTruth (a > b)
  | .lessOrEqual, a, b => ofTruth (a ≤ b)
  | .greaterOrEqual, a, b => ofTruth (a ≥ b)
  | .min, a, b => Min.min a b
  | .max, a, b => Max.max a b

/-- Truth values are written alike as numbers and as items. -/
theorem ofNumber_ofTruth (b : Bool) : Script.ofNumber (ofTruth b) = Script.ofBool b := by
  cases b <;> decide

theorem natAbs_ofTruth_le (b : Bool) : (ofTruth b).natAbs ≤ 1 := by
  cases b <;> decide

theorem UnaryNumber.natAbs_apply_le (f : UnaryNumber) (a : Int) :
    (f.apply a).natAbs ≤ a.natAbs + 1 := by
  cases f with
  | not | isNonzero => exact Nat.le_trans (natAbs_ofTruth_le _) (Nat.le_add_left _ _)
  | increment | decrement | negate | abs =>
    simp only [apply]
    omega

theorem BinaryNumber.natAbs_apply_le (f : BinaryNumber) (a b : Int) :
    (f.apply a b).natAbs ≤ a.natAbs + b.natAbs + 1 := by
  cases f with
  | add | sub | min | max =>
    simp only [apply]
    omega
  | _ => exact Nat.le_trans (natAbs_ofTruth_le _) (Nat.le_add_left _ _)

namespace Call

def unary (call : Call) (f : UnaryNumber) : Action String := do
  let a ← call.popNumber
  let result := f.apply a
  Action.pushNumber result
  pure s!"{call.name}: {a} -> {result}"

def binary (call : Call) (f : BinaryNumber) : Action String := do
  call.require 2
  let b ← call.popNumber
  let a ← call.popNumber
  let result := f.apply a b
  Action.pushNumber result
  pure s!"{call.name}: {a}, {b} -> {result}"

def verifyEqualNumbers (call : Call) : Action String := do
  call.require 2
  let b ← call.popNumber
  let a ← call.popNumber
  if a = b then pure s!"Verified {a} equals {b}"
  else call.fail (.unequalNumbers a b)

/-- Whether a number lies in a half-open interval. -/
def within (call : Call) : Action String := do
  call.require 3
  let upper ← call.popNumber
  let lower ← call.popNumber
  let x ← call.popNumber
  let inside := lower ≤ x && x < upper
  Action.pushBool inside
  let word := if inside then "" else "not "
  pure s!"{x} is {word}within [{lower}, {upper})"

end Call
end LedgerScript
