/-!
Byte strings and the numbers they spell.

A byte string is a list of bytes. Read in base 256 with the least significant digit first it
spells a natural number, and every number below `modulus width` is spelt by exactly one string of
`width` bytes.
-/
namespace LedgerScript

abbrev Bytes := List UInt8

namespace Bytes

/-- How many byte strings of a width there are: 256 to the power of the width. -/
def modulus : Nat → Nat
  | 0 => 1
  | width + 1 => 256 * modulus width

/-- How many bytes a number needs. -/
def width (n : Nat) : Nat := if n = 0 then 0 else n.log2 / 8 + 1

/-- The lowest `width` base-256 digits of a number, least significant first. -/
def ofNatLE : Nat → Nat → Bytes
  | 0, _ => []
  | width + 1, n => UInt8.ofNat n :: ofNatLE width (n / 256)

/-- The number that the bytes spell, least significant first. -/
def toNatLE : Bytes → Nat
  | [] => 0
  | b :: rest => b.toNat + 256 * toNatLE rest

/-- The lowest `width` base-256 digits of a number, most significant first. -/
def ofNatBE (width n : Nat) : Bytes := (ofNatLE width n).reverse

/-- The number that the bytes spell, most significant first. -/
def toNatBE (bytes : Bytes) : Nat := bytes.foldl (fun n b => 256 * n + b.toNat) 0

theorem modulus_pos (width : Nat) : 0 < modulus width := by
  induction width with
  | zero => decide
  | succ width ih => exact Nat.mul_pos (by decide) ih

theorem modulus_eq (width : Nat) : modulus width = Nat.pow 2 (8 * width) := by
  induction width with
  | zero => rfl
  | succ width ih =>
    rw [modulus, ih, Nat.mul_succ, Nat.pow_eq, Nat.pow_eq, Nat.pow_add, Nat.mul_comm]

theorem modulus_le_modulus {a b : Nat} (h : a ≤ b) : modulus a ≤ modulus b := by
  induction h with
  | refl => exact Nat.le_refl _
  | @step b _ ih =>
    rw [modulus]
    omega

theorem modulus_succ_half (width : Nat) : modulus (width + 1) / 2 = 128 * modulus width := by
  rw [modulus]
  omega

theorem width_le_iff (n w : Nat) : width n ≤ w ↔ n < modulus w := by
  unfold width
  split
  · next h =>
    subst h
    exact iff_of_true (Nat.zero_le _) (modulus_pos w)
  · next h =>
    rw [modulus_eq, Nat.pow_eq, ← Nat.log2_lt h]
    omega

@[simp] theorem length_ofNatLE (width n : Nat) : (ofNatLE width n).length = width := by
  induction width generalizing n with
  | zero => rfl
  | succ width ih => simp [ofNatLE, ih]

@[simp] theorem length_ofNatBE (width n : Nat) : (ofNatBE width n).length = width := by
  simp [ofNatBE]

theorem toNatLE_lt (bytes : Bytes) : toNatLE bytes < modulus bytes.length := by
  induction bytes with
  | nil => exact Nat.one_pos
  | cons b rest ih =>
    have := b.toNat_lt
    simp only [toNatLE, List.length_cons, modulus]
    omega

theorem toNatLE_ofNatLE (width n : Nat) : toNatLE (ofNatLE width n) = n % modulus width := by
  induction width generalizing n with
  | zero => exact (Nat.mod_one n).symm
  | succ width ih =>
    rw [ofNatLE, toNatLE, ih, modulus, Nat.mod_mul]
    rfl

theorem ofNatLE_toNatLE (bytes : Bytes) : ofNatLE bytes.length (toNatLE bytes) = bytes := by
  induction bytes with
  | nil => rfl
  | cons b rest ih =>
    have hb := b.toNat_lt
    have quotient : (b.toNat + 256 * toNatLE rest) / 256 = toNatLE rest := by omega
    have digit : UInt8.ofNat (b.toNat + 256 * toNatLE rest) = b := by
      apply UInt8.toNat_inj.mp
      show (b.toNat + 256 * toNatLE rest) % 256 = b.toNat
      omega
    simp only [List.length_cons, ofNatLE, toNatLE, quotient, digit, ih]

/-- The highest bit of the number that the bytes spell is that of the last byte. -/
theorem half_le_toNatLE_iff {bytes : Bytes} (some : bytes ≠ []) :
    modulus bytes.length / 2 ≤ toNatLE bytes ↔ 0x80 ≤ bytes.getLastD 0 := by
  induction bytes with
  | nil => exact absurd rfl some
  | cons b rest ih =>
    by_cases last : rest = []
    · subst last
      simp [toNatLE, modulus, UInt8.le_iff_toNat_le]
    · obtain ⟨width, length⟩ := Nat.exists_eq_succ_of_ne_zero (mt List.length_eq_zero_iff.mp last)
      have byte := b.toNat_lt
      have top : (b :: rest).getLastD 0 = rest.getLastD 0 := by
        obtain ⟨c, rest, rfl⟩ := List.exists_cons_of_ne_nil last
        simp
      rw [top, ← ih last, List.length_cons, length, Nat.succ_eq_add_one, modulus_succ_half,
        modulus_succ_half, modulus, toNatLE]
      omega

/-- What holds of the 256 byte values holds of every byte. -/
theorem forall_byte {p : UInt8 → Prop} (h : ∀ i : Fin 256, p (UInt8.ofFin i)) (b : UInt8) : p b :=
  h b.toFin

end Bytes
end LedgerScript
