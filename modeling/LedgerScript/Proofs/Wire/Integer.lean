import LedgerScript.Proofs.Wire.NormalForm
import Mathlib.Algebra.Group.Int.Defs
import Mathlib.Algebra.Group.Nat.Defs

namespace LedgerScript.IntegerFormat

variable {format : IntegerFormat}

/-- The numbers that two's complement spells in the bits of the width, or from zero. -/
def InRange (format : IntegerFormat) (n : Int) : Prop :=
  if format.signed then -2 ^ (8 * format.width - 1) ≤ n ∧ n ≤ 2 ^ (8 * format.width - 1) - 1
  else 0 ≤ n ∧ n ≤ 2 ^ (8 * format.width) - 1

theorem half_modulus (supported : format.Supported) :
    Bytes.modulus format.width / 2 = 2 ^ (8 * format.width - 1) := by
  have bits : 8 * format.width = 8 * format.width - 1 + 1 := by
    have := supported.1
    omega
  rw [Bytes.modulus_eq, Nat.pow_eq, bits, Nat.pow_succ, Nat.mul_div_cancel _ Nat.two_pos,
    Nat.add_sub_cancel]

theorem fits_iff (supported : format.Supported) {n : Int} : format.Fits n ↔ format.InRange n := by
  unfold Fits lowest highest InRange
  cases format.signed with
  | true => simp only [↓reduceIte, half_modulus supported, Int.natCast_pow, Int.cast_ofNat_Int]
  | false =>
    simp only [Bool.false_eq_true, ↓reduceIte, Bytes.modulus_eq, Nat.pow_eq, Int.natCast_pow,
      Int.cast_ofNat_Int]

/-- Only an unsigned number of eight bytes can be too large for a value. -/
theorem wide_of_large {bytes : Bytes} (supported : format.Supported)
    (length : bytes.length = format.width) (large : Int64.maxValue.toInt < format.value bytes) :
    format.signed = false ∧ format.width = 8 := by
  have high := (fits_value supported length).2
  have most : Int64.maxValue.toInt = 2 ^ 63 - 1 := rfl
  have halves : ∀ w ≤ 8, Bytes.modulus w / 2 ≤ 2 ^ 63 := by decide
  have narrow : ∀ w ≤ 7, Bytes.modulus w ≤ 2 ^ 63 := by decide
  unfold highest at high
  cases signed : format.signed with
  | true =>
    have := halves format.width supported.2
    rw [signed, if_pos rfl] at high
    omega
  | false =>
    rw [signed, if_neg Bool.false_ne_true] at high
    refine ⟨rfl, Nat.le_antisymm supported.2 (Nat.le_of_not_lt fun short => ?_)⟩
    have := narrow format.width (Nat.le_of_lt_succ short)
    omega

theorem value_of_unsigned (unsigned : format.signed = false) (bytes : Bytes) :
    format.value bytes = Bytes.toNatLE (format.arrange bytes) := by
  rw [value, unsigned, if_neg Bool.false_ne_true]

/-- And it is too large if its highest bit is set. -/
theorem large_iff {bytes : Bytes} (supported : format.Supported)
    (length : bytes.length = format.width) :
    Int64.maxValue.toInt < format.value bytes ↔
      format.signed = false ∧ format.width = 8 ∧ 0x80 ≤ (format.arrange bytes).getLastD 0 := by
  have top (unsigned : format.signed = false) (width : format.width = 8) :
      Int64.maxValue.toInt < format.value bytes ↔ 0x80 ≤ (format.arrange bytes).getLastD 0 := by
    have eight : (format.arrange bytes).length = 8 := by rw [length_arrange, length, width]
    have some : format.arrange bytes ≠ [] := List.ne_nil_of_length_eq_add_one eight
    have half : Bytes.modulus 8 / 2 = 2 ^ 63 := by decide
    have most : Int64.maxValue.toInt = 2 ^ 63 - 1 := rfl
    rw [← Bytes.half_le_toNatLE_iff some, eight, value_of_unsigned unsigned]
    omega
  constructor
  · intro large
    obtain ⟨unsigned, width⟩ := wide_of_large supported length large
    exact ⟨unsigned, width, (top unsigned width).mp large⟩
  · rintro ⟨unsigned, width, high⟩
    exact (top unsigned width).mpr high

theorem write_big (format : IntegerFormat) (field : String) (n : Int64) :
    let little := { format with order := .little }.write field n
    { format with order := .big }.write field n = ⟨little.bytes.reverse, little.fault⟩ := by
  -- the order has no say in what is refused
  have parts (order : ByteOrder) : { format with order := order }.write field n =
      if format.Supported then
        if format.Fits n.toInt then .ofBytes ({ format with order := order }.bytes n.toInt)
        else .stop (.overflow field n.toInt format.width)
      else .stop (format.unsupported field) := rfl
  rw [parts .little, parts .big]
  split
  · split <;> rfl
  · rfl

theorem read_big (supported : format.Supported) (field : String) {b : Bytes}
    (length : b.length = format.width) (rest : Bytes) :
    { format with order := .big }.read field (b.reverse ++ rest) =
      { format with order := .little }.read field (b ++ rest) := by
  let big : IntegerFormat := { format with order := .big }
  let little : IntegerFormat := { format with order := .little }
  have supportedBig : big.Supported := supported
  have supportedLittle : little.Supported := supported
  have reversed : b.reverse.length = big.width := by rw [List.length_reverse, length]
  have same : big.value b.reverse = little.value b := by
    simp only [big, little, value, arrange, List.reverse_reverse]
  show big.read field (b.reverse ++ rest) = little.read field (b ++ rest)
  rw [read_append supportedBig field reversed, read_append supportedLittle field length, same]

/-- What is not in range stops the writer before it has written anything. -/
theorem exists_write_eq_stop (field : String) {n : Int64}
    (outside : ¬ (format.Supported ∧ format.InRange n.toInt)) :
    ∃ e, format.write field n = .stop e := by
  unfold write
  split
  · next supported =>
    have unfit : ¬ format.Fits n.toInt := fun fits =>
      outside ⟨supported, (fits_iff supported).mp fits⟩
    exact ⟨_, if_neg unfit⟩
  · exact ⟨_, rfl⟩

/-- A number that was read off some bytes is written as these. -/
theorem write_of_read {field : String} {b : Bytes} {n : Int64} (length : b.length = format.width)
    (read : format.read field b = .ok n []) : format.write field n = .ofBytes b := by
  obtain ⟨taken, form, split, written, -, short⟩ := read_renews field read
  rw [List.append_nil] at split
  subst split
  obtain ⟨-, -, rfl⟩ := write_eq_ofBytes_iff.mp written
  rw [written, short.2 (by rw [length_bytes, length])]

/-- **Numbers are coded exactly.** A number is written if the width is supported and the number is
in range, as so many bytes, from which it is read back; otherwise nothing is written. So many bytes
are read as a number that is written as just these, unless they are eight unsigned ones whose
highest bit is set. The two byte orders give each other's bytes in reverse. -/
theorem write_exact (format : IntegerFormat) (field : String) :
    (∀ n : Int64,
      (format.Supported ∧ format.InRange n.toInt → ∃ b, b.length = format.width ∧
        (∀ before, .ofBytes before ++ format.write field n = Written.ofBytes (before ++ b)) ∧
        ∀ rest, format.read field (b ++ rest) = .ok n rest) ∧
      (¬ (format.Supported ∧ format.InRange n.toInt) → ∃ e, ∀ before,
        .ofBytes before ++ format.write field n = Written.mk before (some e))) ∧
    (format.Supported → ∀ b : Bytes, b.length = format.width →
      let large := format.signed = false ∧ format.width = 8 ∧ 0x80 ≤ (format.arrange b).getLastD 0
      (large → ∀ rest, format.read field (b ++ rest) =
        .error (.overflow field (Bytes.toNatLE (format.arrange b)) 8) rest) ∧
      (¬ large → ∃ n, (∀ rest, format.read field (b ++ rest) = .ok n rest) ∧
        format.write field n = .ofBytes b)) ∧
    (∀ n, let little := { format with order := .little }.write field n
      { format with order := .big }.write field n = ⟨little.bytes.reverse, little.fault⟩) ∧
    (format.Supported → ∀ b : Bytes, b.length = format.width → ∀ rest,
      { format with order := .big }.read field (b.reverse ++ rest) =
        { format with order := .little }.read field (b ++ rest)) := by
  refine ⟨fun n => ⟨?_, ?_⟩, fun supported b length => ⟨?_, ?_⟩, write_big format field,
    fun supported b length => read_big supported field length⟩
  · rintro ⟨supported, inRange⟩
    have written : format.write field n = .ofBytes (format.bytes n.toInt) :=
      write_eq_ofBytes_iff.mpr ⟨supported, (fits_iff supported).mpr inRange, rfl⟩
    exact ⟨_, length_bytes format n.toInt, fun before => by rw [written]; rfl,
      reads_of_write written⟩
  · intro outside
    obtain ⟨e, stopped⟩ := exists_write_eq_stop field outside
    refine ⟨e, fun before => ?_⟩
    rw [stopped, Written.ofBytes_append, Written.stop, List.append_nil]
  · intro large rest
    have above := Int.not_le.mpr ((large_iff supported length).mpr large)
    rw [read_append supported field length, if_neg above, value_of_unsigned large.1, large.2.1]
  · intro small
    have inRange := Int.not_lt.mp (mt (large_iff supported length).mp small)
    have read (rest : Bytes) : format.read field (b ++ rest) =
        .ok (Int64.ofInt (format.value b)) rest := by
      rw [read_append supported field length, if_pos inRange]
    have alone := read []
    rw [List.append_nil] at alone
    exact ⟨_, read, write_of_read length alone⟩

/-- Three signed bytes in either order, a number that they cannot hold, and eight unsigned bytes of
which the first has its highest bit set. -/
theorem write_exact_widest :
    let three : IntegerFormat := ⟨.little, true, 3⟩
    let eight : IntegerFormat := ⟨.big, false, 8⟩
    (three.Supported ∧ three.InRange (-2) ∧ ∃ b, b.length = 3 ∧
      (∀ before, .ofBytes before ++ three.write "n" (-2) = Written.ofBytes (before ++ b)) ∧
      ∀ rest, three.read "n" (b ++ rest) = .ok (-2) rest) ∧
    (¬ three.InRange 8388608 ∧ ∃ e, ∀ before,
      .ofBytes before ++ three.write "n" 8388608 = Written.mk before (some e)) ∧
    (∀ rest, eight.read "n" ([0x80, 0, 0, 0, 0, 0, 0, 1] ++ rest) =
      .error (.overflow "n" 9223372036854775809 8) rest) ∧
    ∃ n, (∀ rest, eight.read "n" ([0x7f, 0, 0, 0, 0, 0, 0, 1] ++ rest) = .ok n rest) ∧
      eight.write "n" n = .ofBytes [0x7f, 0, 0, 0, 0, 0, 0, 1] := by
  intro three eight
  have supportedThree : three.Supported := by decide
  have supportedEight : eight.Supported := by decide
  have inRange : three.InRange (-2) := by simp [three, InRange]
  have outside : ¬ three.InRange 8388608 := by simp [three, InRange]
  obtain ⟨written, -⟩ := (write_exact three "n").1 (-2)
  obtain ⟨-, refused⟩ := (write_exact three "n").1 8388608
  have read := (write_exact eight "n").2.1 supportedEight
  exact ⟨⟨supportedThree, inRange, written ⟨supportedThree, inRange⟩⟩,
    ⟨outside, refused fun held => outside held.2⟩,
    (read [0x80, 0, 0, 0, 0, 0, 0, 1] rfl).1 (by decide),
    (read [0x7f, 0, 0, 0, 0, 0, 0, 1] rfl).2 (by decide)⟩

end LedgerScript.IntegerFormat
