/-!
The elliptic curve y² = x³ + 7 over the prime field of secp256k1.

Points are held in projective coordinates. One addition formula serves all pairs of points, equal,
opposite and neutral ones included, because the group has prime order.
-/
namespace LedgerScript.Curve

/-- The characteristic of the field. -/
def fieldPrime : Nat := 0xfffffffffffffffffffffffffffffffffffffffffffffffffffffffefffffc2f

/-- The order of the group. -/
def order : Nat := 0xfffffffffffffffffffffffffffffffebaaedce6af48a03bbfd25e8cd0364141

/-- The bits of a 256-bit number, most significant first. -/
def bits (n : Nat) : List Bool := (List.range 256).reverse.map n.testBit

/-- A power modulo `modulus`, for an exponent of at most 256 bits. -/
def powMod (base exponent modulus : Nat) : Nat :=
  (bits exponent).foldl
    (fun acc bit =>
      let square := acc * acc % modulus
      if bit then square * base % modulus else square) 1

/-- The inverse modulo a prime, by Fermat's little theorem. -/
def inverse (a prime : Nat) : Nat := powMod a (prime - 2) prime

def add (a b : Nat) : Nat := (a + b) % fieldPrime

def sub (a b : Nat) : Nat := (a + fieldPrime - b) % fieldPrime

def mul (a b : Nat) : Nat := a * b % fieldPrime

/-- A point (x : y : z); the neutral point is (0 : 1 : 0). -/
structure Point where
  x : Nat
  y : Nat
  z : Nat
deriving DecidableEq, Repr

namespace Point

def neutral : Point := ⟨0, 1, 0⟩

def generator : Point where
  x := 0x79be667ef9dcbbac55a06295ce870b07029bfcdb2dce28d959f2815b16f81798
  y := 0x483ada7726a3c4655da4fbfc0e1108a8fd17b448a68554199c47d08ffb10d4b8
  z := 1

/-- The complete addition law for curves y² = x³ + b with 3b = 21. -/
def plus (p q : Point) : Point :=
  let xx := mul p.x q.x
  let yy := mul p.y q.y
  let zz := mul p.z q.z
  let xy := sub (mul (add p.x p.y) (add q.x q.y)) (add xx yy)
  let yz := sub (mul (add p.y p.z) (add q.y q.z)) (add yy zz)
  let xz := sub (mul (add p.x p.z) (add q.x q.z)) (add xx zz)
  let xx3 := mul 3 xx
  let zz21 := mul 21 zz
  let sum := add yy zz21
  let diff := sub yy zz21
  let xz21 := mul 21 xz
  { x := sub (mul xy diff) (mul yz xz21)
    y := add (mul diff sum) (mul xz21 xx3)
    z := add (mul sum yz) (mul xx3 xy) }

/-- A multiple of a point, by doubling and adding. -/
def times (k : Nat) (p : Point) : Point :=
  (bits k).foldl
    (fun acc bit =>
      let double := acc.plus acc
      if bit then double.plus p else double) neutral

/-- The first affine coordinate, unless the point is neutral. -/
def affineX? (p : Point) : Option Nat :=
  if p.z = 0 then none else some (mul p.x (inverse p.z fieldPrime))

end Point

/-- Whether (x, y) lies on the curve. -/
def onCurve (x y : Nat) : Bool := mul y y == add (mul (mul x x) x) 7

/-- The root of x³ + 7 of the asked parity, if there is a root. -/
def liftX (x : Nat) (odd : Bool) : Option Point :=
  let root := powMod (add (mul (mul x x) x) 7) ((fieldPrime + 1) / 4) fieldPrime
  if onCurve x root then
    some ⟨x, if (root % 2 == 1) == odd then root else sub 0 root, 1⟩
  else none

end LedgerScript.Curve
