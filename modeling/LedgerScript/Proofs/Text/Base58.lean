import LedgerScript.Text.Base58
import Mathlib.Algebra.Group.Nat.Defs

namespace LedgerScript.Base58

theorem value?_pos {c : Char} {d : Nat} (read : value? c = some d) (ne : c ≠ '1') : 0 < d := by
  have first : alphabet = '1' :: alphabet.tail := by decide +kernel
  rw [value?, first, List.idxOf?_cons, if_neg (by simpa using ne.symm)] at read
  obtain ⟨before, -, rfl⟩ := Option.map_eq_some_iff.mp read
  exact Nat.succ_pos before

/-- Digits after a number give it their weight. -/
theorem pow_mul_le_of_digits {text : List Char} {n m : Nat}
    (read : text.foldlM (fun n c => (value? c).map (58 * n + ·)) n = some m) :
    58 ^ text.length * n ≤ m := by
  induction text generalizing n with
  | nil =>
    cases read
    simp
  | cons c text ih =>
    rw [List.foldlM_cons] at read
    obtain ⟨next, step, rest⟩ := Option.bind_eq_some_iff.mp read
    obtain ⟨d, -, rfl⟩ := Option.map_eq_some_iff.mp step
    calc 58 ^ (c :: text).length * n
        = 58 ^ text.length * (58 * n) := by rw [List.length_cons, Nat.pow_succ, Nat.mul_assoc]
      _ ≤ 58 ^ text.length * (58 * n + d) := Nat.mul_le_mul_left _ (Nat.le_add_right _ _)
      _ ≤ m := ih rest

theorem decode_one (text : List Char) : decode ('1' :: text) = (decode text).map (0 :: ·) := by
  have zero : number? ('1' :: text) = number? text := rfl
  rw [decode, decode, zero, Option.map_map]
  rfl

/-- **The bytes of a text are at least as many as its digits need.** -/
theorem pow_le_of_decode {text : List Char} {bytes : Bytes} (read : decode text = some bytes) :
    58 ^ text.length ≤ 58 * Bytes.modulus bytes.length := by
  induction text generalizing bytes with
  | nil =>
    cases read
    decide
  | cons c text ih =>
    by_cases one : c = '1'
    · subst one
      rw [decode_one] at read
      obtain ⟨others, rest, rfl⟩ := Option.map_eq_some_iff.mp read
      have enough := ih rest
      rw [List.length_cons, List.length_cons, Bytes.modulus, Nat.pow_succ]
      omega
    · obtain ⟨n, number, rfl⟩ := Option.map_eq_some_iff.mp read
      have none : (c :: text).takeWhile (· == '1') = [] := by simp [one]
      rw [number?, List.foldlM_cons] at number
      obtain ⟨first, step, rest⟩ := Option.bind_eq_some_iff.mp number
      obtain ⟨d, digit, rfl⟩ := Option.map_eq_some_iff.mp step
      have some : 58 ^ text.length ≤ n := by
        calc 58 ^ text.length ≤ 58 ^ text.length * (58 * 0 + d) :=
              Nat.le_mul_of_pos_right _ (by have := value?_pos digit one; omega)
          _ ≤ n := pow_mul_le_of_digits rest
      have fits : n < Bytes.modulus (Bytes.width n) := (Bytes.width_le_iff n _).mp (Nat.le_refl _)
      rw [none, List.length_nil, List.replicate_zero, List.nil_append, Bytes.length_ofNatBE,
        List.length_cons, Nat.pow_succ]
      omega

/-- **A long text with a checksum stands for many bytes.** -/
theorem lt_length_of_decodeChecked {text : String} {payload : Bytes}
    (read : decodeChecked text = some payload) (long : 35 < text.length) : 21 < payload.length := by
  obtain ⟨bytes, decoded, checked⟩ := Option.bind_eq_some_iff.mp read
  have enough := pow_le_of_decode decoded
  have length : payload.length = bytes.length - 4 := by
    split at checked
    · cases checked
    · dsimp only at checked
      split at checked
      · cases checked
        exact List.length_take_of_le (Nat.sub_le _ _)
      · cases checked
  apply Nat.lt_of_not_le
  intro few
  have most : Bytes.modulus bytes.length ≤ Bytes.modulus 25 := Bytes.modulus_le_modulus (by omega)
  have least : 58 ^ 36 ≤ 58 ^ text.toList.length :=
    Nat.pow_le_pow_right (by decide) (by rwa [String.length_toList])
  have apart : 58 * Bytes.modulus 25 < 58 ^ 36 := by decide
  omega

end LedgerScript.Base58
