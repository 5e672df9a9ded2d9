import LedgerScript.Decimal.Binary64

/-!
The fewest decimal digits that read back as a double precision number.

A decimal reads back as a magnitude when it lies between the halfway points to its neighbours, the
points themselves counting where the mantissa is even. For one digit, two digits and so on the two
decimals beside the magnitude are tried; the nearer one is taken if both read back.
-/
namespace LedgerScript.Shortest

/-- Whether `digits · 10 ^ exponent` reads back as the magnitude. -/
def readsBack (m : Magnitude) (digits : Nat) (exponent : Int) : Bool :=
  let quarter : Int := m.exponent - 2
  let point := (digits * tenTo exponent.toNat) <<< (-quarter).toNat
  let unit := tenTo (-exponent).toNat <<< quarter.toNat
  let below :=
    if 2 * m.mantissa = Magnitude.mantissaLimit ∧ m.exponent ≠ Magnitude.lowestExponent then 1
    else 2
  let lower := (4 * m.mantissa - below) * unit
  let upper := (4 * m.mantissa + 2) * unit
  if m.mantissa % 2 = 0 then lower ≤ point && point ≤ upper else lower < point && point < upper

/-- The exponent of the leading digit of a quotient below one, looking only so far. -/
def leadingBelow : Nat → Nat → Nat → Int
  | 0, _, _ => 0
  | fuel + 1, num, den => if den ≤ num then 0 else leadingBelow fuel (10 * num) den - 1

/-- The exponent of the leading digit of a positive magnitude. -/
def leading (m : Magnitude) : Int :=
  let (num, den) := m.ratio
  if den ≤ num then (Nat.toDigits 10 (num / den)).length - 1 else leadingBelow 400 num den

/-- The two multiples of `10 ^ exponent` beside a magnitude, the nearer one first; of two equally
near the even one. -/
def beside (m : Magnitude) (exponent : Int) : List Nat :=
  let num := m.ratio.1 * tenTo (-exponent).toNat
  let den := m.ratio.2 * tenTo exponent.toNat
  let low := num / den
  if roundHalfEven num den = low then [low, low + 1] else [low + 1, low]

/-- Digits and exponent of the shortest decimal of a positive magnitude. -/
def digits (m : Magnitude) : Nat × Int :=
  let top := leading m
  let candidates := (List.range 17).flatMap fun (extra : Nat) =>
    let exponent := top - extra
    (beside m exponent).map fun d => (d, exponent)
  (candidates.find? fun (d, exponent) => d != 0 && readsBack m d exponent).getD (0, 0)

/-- A number without its trailing zeros, and the exponent that makes up for them. -/
def strip : Nat → Nat → Int → Nat × Int
  | 0, d, e => (d, e)
  | fuel + 1, d, e => if d % 10 = 0 ∧ d ≠ 0 then strip fuel (d / 10) (e + 1) else (d, e)

end LedgerScript.Shortest
