import LedgerScript.Script.Number

namespace LedgerScript.Script

theorem isNegative_cons {b : UInt8} {rest : Bytes} (further : rest ≠ []) :
    isNegative (b :: rest) = isNegative rest := by
  obtain ⟨c, rest, rfl⟩ := List.exists_cons_of_ne_nil further
  simp [isNegative]

theorem length_withSign (negative : Bool) (bytes : Bytes) :
    (withSign negative bytes).length = bytes.length + if isNegative bytes then 1 else 0 := by
  fun_induction withSign negative bytes with
  | case1 => rfl
  | case2 last full => simp [isNegative, full]
  | case3 last room => simp [isNegative, room]
  | case4 b rest further ih =>
    rw [isNegative_cons further, List.length_cons, ih, List.length_cons]
    omega

theorem length_withSign_le (negative : Bool) (bytes : Bytes) :
    (withSign negative bytes).length ≤ bytes.length + 1 := by
  rw [length_withSign]
  split <;> omega

theorem length_ofNumber_le {n : Int} {width : Nat} (h : n.natAbs < Bytes.modulus width) :
    (ofNumber n).length ≤ width + 1 := by
  have digits := (Bytes.width_le_iff n.natAbs width).mpr h
  have signed := length_withSign_le (n < 0) (Bytes.ofNatLE (Bytes.width n.natAbs) n.natAbs)
  rw [Bytes.length_ofNatLE] at signed
  exact Nat.le_trans signed (by omega)

theorem natAbs_number (bytes : Bytes) : (number bytes).natAbs = magnitude bytes := by
  unfold number
  split <;> omega

/-- A number is refused for its length only. -/
theorem toNumber_error {limit : Nat} {bytes : Bytes} {e : Error}
    (failed : toNumber limit bytes = .error e) :
    e = .script (.numberTooLong bytes.length limit) := by
  unfold toNumber at failed
  split at failed <;> cases failed
  rfl

theorem toNumber_eq_ok_iff {limit : Nat} {bytes : Bytes} {n : Int} :
    toNumber limit bytes = .ok n ↔ bytes.length ≤ limit ∧ number bytes = n := by
  unfold toNumber
  split
  · next long => simp [Nat.not_le_of_gt long]
  · next short => simp [Nat.le_of_not_lt short]

/-- An operand is smaller than its length allows. -/
theorem natAbs_lt_of_toNumber {limit : Nat} {bytes : Bytes} {n : Int}
    (h : toNumber limit bytes = .ok n) : n.natAbs < Bytes.modulus limit := by
  obtain ⟨short, rfl⟩ := toNumber_eq_ok_iff.mp h
  have below : magnitude bytes < Bytes.modulus bytes.length :=
    Nat.lt_of_le_of_lt (Nat.mod_le _ _) (Bytes.toNatLE_lt bytes)
  rw [natAbs_number]
  exact Nat.lt_of_lt_of_le below (Bytes.modulus_le_modulus short)

theorem number_eq_zero_iff {bytes : Bytes} : number bytes = 0 ↔ magnitude bytes = 0 := by
  rw [← natAbs_number, Int.natAbs_eq_zero]

/-- Only the last byte has a sign bit. -/
theorem magnitude_cons (b : UInt8) {rest : Bytes} (further : rest ≠ []) :
    magnitude (b :: rest) = b.toNat + 256 * magnitude rest := by
  obtain ⟨width, length⟩ := Nat.exists_eq_succ_of_ne_zero (mt List.length_eq_zero_iff.mp further)
  have half : Bytes.modulus (width + 1 + 1) / 2 = 256 * (Bytes.modulus (width + 1) / 2) := by
    rw [Bytes.modulus_succ_half, Bytes.modulus_succ_half, Bytes.modulus]
    omega
  have byte := b.toNat_lt
  have low : (b.toNat + 256 * Bytes.toNatLE rest) % 256 = b.toNat := by omega
  have high : (b.toNat + 256 * Bytes.toNatLE rest) / 256 = Bytes.toNatLE rest := by omega
  rw [magnitude, magnitude, List.length_cons, length, Nat.succ_eq_add_one, half, Bytes.toNatLE,
    Nat.mod_mul, low, high]

/-- **An item is true where it spells another number than zero.** -/
theorem isTrue_iff_number_ne_zero (bytes : Bytes) : isTrue bytes = true ↔ number bytes ≠ 0 := by
  fun_induction isTrue bytes with
  | case1 => decide
  | case2 last =>
    revert last
    apply Bytes.forall_byte
    decide +kernel
  | case3 b rest further ih =>
    rw [ne_eq, number_eq_zero_iff] at ih ⊢
    rw [magnitude_cons b further, Bool.or_eq_true, bne_iff_ne, ne_eq, ih,
      ← UInt8.toNat_inj, UInt8.toNat_zero]
    omega

/-- The sign bit is the highest bit of the number that the bytes spell. -/
theorem isNegative_iff {bytes : Bytes} (some : bytes ≠ []) :
    isNegative bytes = true ↔ Bytes.modulus bytes.length / 2 ≤ Bytes.toNatLE bytes := by
  rw [Bytes.half_le_toNatLE_iff some, isNegative, decide_eq_true_iff]

theorem withSign_ne_nil (negative : Bool) {bytes : Bytes} (some : bytes ≠ []) :
    withSign negative bytes ≠ [] := by
  intro none
  have length := length_withSign negative bytes
  rw [none, List.length_nil] at length
  exact some (List.eq_nil_of_length_eq_zero (by omega))

/-- The magnitude stays below the sign bit, and only the sign is added to it. -/
theorem toNatLE_withSign (negative : Bool) {bytes : Bytes} (some : bytes ≠ []) :
    Bytes.toNatLE bytes < Bytes.modulus (withSign negative bytes).length / 2 ∧
    Bytes.toNatLE (withSign negative bytes) = Bytes.toNatLE bytes +
      if negative then Bytes.modulus (withSign negative bytes).length / 2 else 0 := by
  fun_induction withSign negative bytes with
  | case1 => exact absurd rfl some
  | case2 last full =>
    have byte := last.toNat_lt
    cases negative <;> simp [Bytes.toNatLE, Bytes.modulus] <;> omega
  | case3 last room =>
    have low : last.toNat < 128 := by simpa [UInt8.le_iff_toNat_le] using room
    have signed : ∀ b : UInt8, b.toNat < 128 → (b ||| 0x80).toNat = b.toNat + 128 := by
      apply Bytes.forall_byte
      decide +kernel
    cases negative <;> simp [Bytes.toNatLE, Bytes.modulus, signed last low, low]
  | case4 b rest further ih =>
    obtain ⟨below, value⟩ := ih further
    obtain ⟨width, length⟩ := Nat.exists_eq_succ_of_ne_zero
      (mt List.length_eq_zero_iff.mp (withSign_ne_nil negative further))
    have byte := b.toNat_lt
    rw [length, Nat.succ_eq_add_one, Bytes.modulus_succ_half] at below value
    rw [List.length_cons, length, Nat.succ_eq_add_one, Bytes.modulus_succ_half, Bytes.modulus,
      Bytes.toNatLE, Bytes.toNatLE, value]
    cases negative <;> simp <;> omega

theorem number_withSign (negative : Bool) {bytes : Bytes} (some : bytes ≠ []) :
    number (withSign negative bytes) =
      if negative then -(Bytes.toNatLE bytes : Int) else Bytes.toNatLE bytes := by
  obtain ⟨below, value⟩ := toNatLE_withSign negative some
  have sign := isNegative_iff (withSign_ne_nil negative some)
  have magnitude_eq : magnitude (withSign negative bytes) = Bytes.toNatLE bytes := by
    rw [magnitude, value]
    cases negative
    · simpa using Nat.mod_eq_of_lt below
    · simpa using Nat.mod_eq_of_lt below
  rw [value] at sign
  unfold number
  rw [magnitude_eq]
  cases negative with
  | false =>
    have plain : ¬ isNegative (withSign false bytes) = true := by
      rw [sign]
      simpa using below
    rw [if_neg plain]
    rfl
  | true =>
    have signed : isNegative (withSign true bytes) = true := by
      rw [sign]
      simp
    rw [if_pos signed]
    rfl

/-- **A number is read back from its shortest form.** -/
theorem number_ofNumber (n : Int) : number (ofNumber n) = n := by
  by_cases zero : n = 0
  · subst zero
    decide
  · have digits : Bytes.width n.natAbs ≠ 0 := by
      rw [Bytes.width]
      split <;> omega
    have some : Bytes.ofNatLE (Bytes.width n.natAbs) n.natAbs ≠ [] := by
      intro none
      have length := Bytes.length_ofNatLE (Bytes.width n.natAbs) n.natAbs
      rw [none] at length
      exact digits length.symm
    have fits := (Bytes.width_le_iff n.natAbs _).mp (Nat.le_refl _)
    rw [ofNumber, number_withSign _ some, Bytes.toNatLE_ofNatLE, Nat.mod_eq_of_lt fits]
    by_cases negative : n < 0
    · simp only [negative, decide_true, ↓reduceIte]
      omega
    · simp only [negative, decide_false, Bool.false_eq_true, ↓reduceIte]
      omega

/-- A number below half of what a width spells needs no further byte for its sign. -/
theorem length_ofNumber_le_of_lt_half {n : Int} {width : Nat}
    (h : n.natAbs < Bytes.modulus (width + 1) / 2) : (ofNumber n).length ≤ width + 1 := by
  have digits : Bytes.width n.natAbs ≤ width + 1 := by
    rw [Bytes.width_le_iff]
    exact Nat.lt_of_lt_of_le h (Nat.div_le_self _ _)
  rw [ofNumber, length_withSign, Bytes.length_ofNatLE]
  by_cases short : Bytes.width n.natAbs ≤ width
  · split <;> omega
  · have full : Bytes.width n.natAbs = width + 1 := by omega
    have some : Bytes.ofNatLE (Bytes.width n.natAbs) n.natAbs ≠ [] := by
      rw [full]
      exact List.cons_ne_nil _ _
    have plain : ¬ isNegative (Bytes.ofNatLE (Bytes.width n.natAbs) n.natAbs) = true := by
      rw [isNegative_iff some, Bytes.toNatLE_ofNatLE, Bytes.length_ofNatLE, full]
      exact Nat.not_le_of_lt (Nat.lt_of_le_of_lt (Nat.mod_le _ _) h)
    rw [if_neg plain]
    exact digits

theorem number_nil : number [] = 0 := by decide

theorem ofNumber_zero : ofNumber 0 = [] := by decide

theorem natAbs_number_lt {bytes : Bytes} (some : bytes ≠ []) :
    (number bytes).natAbs < Bytes.modulus bytes.length / 2 := by
  rw [natAbs_number]
  obtain ⟨width, length⟩ := Nat.exists_eq_succ_of_ne_zero (mt List.length_eq_zero_iff.mp some)
  have positive := Bytes.modulus_pos width
  refine Nat.mod_lt _ ?_
  rw [length, Nat.succ_eq_add_one, Bytes.modulus_succ_half]
  omega

theorem natAbs_number_lt_of_length_le {bytes : Bytes} {width : Nat}
    (short : bytes.length ≤ width + 1) : (number bytes).natAbs < Bytes.modulus (width + 1) / 2 := by
  by_cases none : bytes = []
  · rw [none, number_nil, Bytes.modulus_succ_half]
    exact Nat.mul_pos (by decide) (Bytes.modulus_pos width)
  · exact Nat.lt_of_lt_of_le (natAbs_number_lt none)
      (Nat.div_le_div_right (Bytes.modulus_le_modulus short))

/-- The shortest form has room for the sign bit above the magnitude. -/
theorem length_ofNumber_le_iff {n : Int} {width : Nat} :
    (ofNumber n).length ≤ width + 1 ↔ n.natAbs < Bytes.modulus (width + 1) / 2 := by
  constructor
  · intro short
    have below := natAbs_number_lt_of_length_le short
    rwa [number_ofNumber] at below
  · exact length_ofNumber_le_of_lt_half

/-- The sign bit stands above the magnitude. -/
theorem toNatLE_eq {bytes : Bytes} (some : bytes ≠ []) :
    Bytes.toNatLE bytes =
      magnitude bytes + if isNegative bytes then Bytes.modulus bytes.length / 2 else 0 := by
  obtain ⟨width, length⟩ := Nat.exists_eq_succ_of_ne_zero (mt List.length_eq_zero_iff.mp some)
  have below := Bytes.toNatLE_lt bytes
  have sign := isNegative_iff some
  rw [magnitude]
  rw [length, Nat.succ_eq_add_one, Bytes.modulus_succ_half] at sign ⊢
  rw [length, Nat.succ_eq_add_one, Bytes.modulus] at below
  split
  · next negative =>
    have high := sign.mp negative
    rw [Nat.mod_eq_sub_mod high, Nat.mod_eq_of_lt (by omega)]
    omega
  · next plain =>
    rw [Nat.mod_eq_of_lt (Nat.lt_of_not_le (mt sign.mpr plain)), Nat.add_zero]

/-- Only zero has two spellings of the same length. -/
theorem eq_of_number_eq {a b : Bytes} (length : a.length = b.length)
    (same : number a = number b) (nonzero : number a ≠ 0) : a = b := by
  have someA : a ≠ [] := by
    rintro rfl
    exact nonzero number_nil
  have someB : b ≠ [] := by
    rintro rfl
    exact nonzero (same.trans number_nil)
  have magnitudes : magnitude a = magnitude b := by
    rw [← natAbs_number, ← natAbs_number, same]
  have signs : isNegative a = isNegative b := by
    unfold number at same nonzero
    cases negativeA : isNegative a <;> cases negativeB : isNegative b <;>
      simp only [negativeA, negativeB, Bool.false_eq_true, ↓reduceIte] at same nonzero ⊢ <;> omega
  have spelt : Bytes.toNatLE a = Bytes.toNatLE b := by
    rw [toNatLE_eq someA, toNatLE_eq someB, magnitudes, signs, length]
  rw [← Bytes.ofNatLE_toNatLE a, ← Bytes.ofNatLE_toNatLE b, spelt, length]

theorem length_ofNumber_number_le (bytes : Bytes) :
    (ofNumber (number bytes)).length ≤ bytes.length := by
  by_cases none : bytes = []
  · exact Nat.le_of_eq (by rw [none, number_nil, ofNumber_zero])
  · have below := natAbs_number_lt none
    obtain ⟨width, length⟩ := Nat.exists_eq_succ_of_ne_zero (mt List.length_eq_zero_iff.mp none)
    rw [length] at below ⊢
    exact length_ofNumber_le_of_lt_half below

/-- No spelling but the shortest form is as short. -/
theorem ofNumber_number {bytes : Bytes}
    (length : (ofNumber (number bytes)).length = bytes.length) :
    ofNumber (number bytes) = bytes := by
  by_cases zero : number bytes = 0
  · rw [zero, ofNumber_zero] at length ⊢
    exact (List.eq_nil_of_length_eq_zero length.symm).symm
  · have back := number_ofNumber (number bytes)
    exact eq_of_number_eq length back fun none => zero (back.symm.trans none)

theorem toNumber_of_length_le {limit : Nat} {bytes : Bytes} (short : bytes.length ≤ limit) :
    toNumber limit bytes = .ok (number bytes) := toNumber_eq_ok_iff.mpr ⟨short, rfl⟩

theorem toNumber_ofNumber {limit : Nat} {n : Int} (short : (ofNumber n).length ≤ limit) :
    toNumber limit (ofNumber n) = .ok n := by
  rw [toNumber_of_length_le short, number_ofNumber]

/-- A number that leaves room for the sign bit is read back. -/
theorem toNumber_ofNumber_of_lt_half {n : Int} {width : Nat}
    (small : n.natAbs < Bytes.modulus (width + 1) / 2) :
    toNumber (width + 1) (ofNumber n) = .ok n :=
  toNumber_ofNumber (length_ofNumber_le_of_lt_half small)

/-- All numbers of a value but the least have magnitudes below the sign bit of eight bytes. -/
theorem natAbs_lt_iff {n : Int64} :
    n.toInt.natAbs < Bytes.modulus 8 / 2 ↔ n ≠ Int64.minValue := by
  have half : Bytes.modulus 8 / 2 = 2 ^ 63 := by decide
  have least := Int64.le_toInt n
  have most := Int64.toInt_lt n
  rw [ne_eq, ← Int64.toInt_inj, Int64.toInt_minValue]
  omega

/-- Eight bytes spell the numbers of a value, the least one excepted. -/
theorem exists_number_eq {bytes : Bytes} (short : bytes.length ≤ 8) :
    ∃ n : Int64, n ≠ Int64.minValue ∧ n.toInt = number bytes := by
  have half : Bytes.modulus 8 / 2 = 2 ^ 63 := by decide
  have below : (number bytes).natAbs < Bytes.modulus 8 / 2 := natAbs_number_lt_of_length_le short
  have exact : (Int64.ofInt (number bytes)).toInt = number bytes :=
    Int64.toInt_ofInt_of_le (by omega) (by omega)
  exact ⟨_, natAbs_lt_iff.mp (exact.symm ▸ below), exact⟩

/-- **Numbers have one shortest form.** The shortest form of a number that is not the least of eight
bytes takes eight bytes at most, and it is read back wherever it is not too long. Whatever eight
bytes or fewer spell is such a number, its shortest form is no longer than they are, and they are
the shortest form if they are no longer. -/
theorem ofNumber_shortest :
    (∀ n : Int64, n ≠ Int64.minValue → (ofNumber n.toInt).length ≤ 8 ∧
      ∀ limit, (ofNumber n.toInt).length ≤ limit →
        toNumber limit (ofNumber n.toInt) = .ok n.toInt) ∧
    ∀ bytes : Bytes, bytes.length ≤ 8 → ∃ n : Int64, n ≠ Int64.minValue ∧
      toNumber 8 bytes = .ok n.toInt ∧ (ofNumber n.toInt).length ≤ bytes.length ∧
      ((ofNumber n.toInt).length = bytes.length → ofNumber n.toInt = bytes) := by
  refine ⟨fun n other => ⟨?_, fun limit short => toNumber_ofNumber short⟩, fun bytes short => ?_⟩
  · exact length_ofNumber_le_of_lt_half (natAbs_lt_iff.mpr other)
  · obtain ⟨n, other, spelt⟩ := exists_number_eq short
    refine ⟨n, other, ?_⟩
    rw [spelt]
    exact ⟨toNumber_of_length_le short, length_ofNumber_number_le bytes, ofNumber_number⟩

/-- The number next to the least, and a padded spelling of -128, whose shortest form needs a byte
for its sign. -/
theorem ofNumber_shortest_padded :
    ((ofNumber (-9223372036854775807 : Int64).toInt).length ≤ 8 ∧
      toNumber 8 (ofNumber (-9223372036854775807 : Int64).toInt) =
        .ok (-9223372036854775807 : Int64).toInt) ∧
    ∃ n : Int64, n ≠ Int64.minValue ∧ toNumber 8 [0x80, 0, 0x80] = .ok n.toInt ∧
      (ofNumber n.toInt).length ≤ 3 := by
  obtain ⟨written, read⟩ := ofNumber_shortest
  obtain ⟨length, back⟩ := written (-9223372036854775807) (by decide)
  obtain ⟨n, other, spelt, shorter, -⟩ := read [0x80, 0, 0x80] (by decide)
  exact ⟨⟨length, back 8 length⟩, n, other, spelt, shorter⟩

end LedgerScript.Script
