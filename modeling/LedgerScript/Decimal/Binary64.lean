/-!
Double precision numbers and their exact rounding.

A magnitude is `mantissa · 2 ^ exponent`. The mantissa has 53 bits, or fewer at the lowest
exponent. Results are rounded to the nearest magnitude, a half to the even mantissa; those that
reach 2¹⁰²⁴ are no magnitude.
-/
namespace LedgerScript

/-- Ten to a power. -/
def tenTo : Nat → Nat
  | 0 => 1
  | k + 1 => 10 * tenTo k

/-- A quotient rounded to the nearest whole number, a half to the even one. -/
def roundHalfEven (num den : Nat) : Nat :=
  let q := num / den
  let twice := 2 * (num % den)
  if twice < den then q
  else if den < twice then q + 1
  else if q % 2 = 0 then q else q + 1

structure Magnitude where
  mantissa : Nat
  exponent : Int
deriving DecidableEq, Repr

namespace Magnitude

def lowestExponent : Int := -1074

def highestExponent : Int := 971

/-- The least number that is too large for a mantissa. -/
def mantissaLimit : Nat := 1 <<< 53

def zero : Magnitude := ⟨0, lowestExponent⟩

def isZero (m : Magnitude) : Bool := m.mantissa == 0

/-- The magnitude as a quotient. -/
def ratio (m : Magnitude) : Nat × Nat :=
  (m.mantissa <<< m.exponent.toNat, 1 <<< (-m.exponent).toNat)

/-- The exponent at which a positive quotient has a mantissa of 53 bits. -/
def exponentOf (num den : Nat) : Int :=
  let low := max ((num.log2 : Int) - den.log2 - 53) lowestExponent
  if mantissaLimit * den <<< low.toNat ≤ num <<< (-low).toNat then low + 1 else low

/-- A quotient, rounded. -/
def ofRatio (num den : Nat) : Option Magnitude :=
  if num = 0 then some zero
  else
    let e := exponentOf num den
    let m := roundHalfEven (num <<< (-e).toNat) (den <<< e.toNat)
    let rounded : Magnitude := if m = mantissaLimit then ⟨m / 2, e + 1⟩ else ⟨m, e⟩
    if highestExponent < rounded.exponent then none else some rounded

def mul (a b : Magnitude) : Option Magnitude :=
  ofRatio (a.ratio.1 * b.ratio.1) (a.ratio.2 * b.ratio.2)

def div (a b : Magnitude) : Option Magnitude :=
  ofRatio (a.ratio.1 * b.ratio.2) (a.ratio.2 * b.ratio.1)

/-- A power of ten, rounded. -/
def powerOfTen (k : Nat) : Magnitude := (ofRatio (tenTo k) 1).getD zero

/-- Division by a power of ten, at most 10³⁰⁸ at a time. -/
def scaleDown (m : Magnitude) (k : Nat) : Magnitude :=
  if m.isZero then m
  else if k ≤ 308 then (m.div (powerOfTen k)).getD zero
  else scaleDown ((m.div (powerOfTen 308)).getD zero) (k - 308)
termination_by k
decreasing_by omega

/-- A whole number times a power of ten, the number and each step being rounded. -/
def ofDecimal (significand : Nat) (exponent : Int) : Option Magnitude := do
  let m ← ofRatio significand 1
  if exponent < 0 then some (m.scaleDown (-exponent).toNat)
  else if exponent ≤ 308 then m.mul (powerOfTen exponent.toNat)
  else if m.isZero then some m else none

end Magnitude

structure Binary64 where
  negative : Bool
  magnitude : Magnitude
deriving DecidableEq, Repr

end LedgerScript
