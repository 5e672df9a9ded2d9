import Mathlib.Data.List.Basic
import LedgerScript.Proofs.Fallible
import LedgerScript.Proofs.Machine.Effects
import LedgerScript.Proofs.Script.Number

/-!
What the numeric codes calculate.

Operands are numbers of at most four bytes, so words of 64 bits do not wrap around on them. They are
taken one by one, and the first that is too long ends the operation.
-/
namespace LedgerScript

open Script (number)

namespace Calculation

section

variable {α : Type} [OfNat α 0] [OfNat α 1] [Neg α] [Add α] [Sub α] [DecidableEq α] [LT α]
  [DecidableLT α] [LE α] [DecidableLE α]

/-- One where something holds, else zero. -/
def truth (p : Prop) [Decidable p] : α := if p then 1 else 0

/-- What a code leaves in place of its operands, which come with the top first. Nothing comes of
numbers that a code refuses. -/
def calculate (opcode : UInt8) : List α → Option (List α)
  | [a] =>
    match opcode with
    -- OP_1ADD, OP_1SUB, OP_NEGATE, OP_ABS, OP_NOT, OP_0NOTEQUAL
    | 0x8b => some [a + 1]
    | 0x8c => some [a - 1]
    | 0x8f => some [-a]
    | 0x90 => some [if a < 0 then -a else a]
    | 0x91 => some [truth (a = 0)]
    | 0x92 => some [truth (a ≠ 0)]
    | _ => none
  | [b, a] =>
    match opcode with
    -- OP_ADD, OP_SUB
    | 0x93 => some [a + b]
    | 0x94 => some [a - b]
    -- OP_BOOLAND, OP_BOOLOR, OP_NUMEQUAL, OP_NUMEQUALVERIFY, OP_NUMNOTEQUAL
    | 0x9a => some [truth (a ≠ 0 ∧ b ≠ 0)]
    | 0x9b => some [truth (a ≠ 0 ∨ b ≠ 0)]
    | 0x9c => some [truth (a = b)]
    | 0x9d => if a = b then some [] else none
    | 0x9e => some [truth (a ≠ b)]
    -- OP_LESSTHAN, OP_GREATERTHAN, OP_LESSTHANOREQUAL, OP_GREATERTHANOREQUAL, OP_MIN, OP_MAX
    | 0x9f => some [truth (a < b)]
    | 0xa0 => some [truth (b < a)]
    | 0xa1 => some [truth (a ≤ b)]
    | 0xa2 => some [truth (b ≤ a)]
    | 0xa3 => some [if a ≤ b then a else b]
    | 0xa4 => some [if a ≤ b then b else a]
    | _ => none
  | [upper, lower, x] =>
    match opcode with
    -- OP_WITHIN
    | 0xa5 => some [truth (lower ≤ x ∧ x < upper)]
    | _ => none
  | _ => none

end

/-- How many operands a numeric code takes. -/
def operands? : UInt8 → Option Nat
  | 0x8b | 0x8c | 0x8f | 0x90 | 0x91 | 0x92 => some 1
  | 0x93 | 0x94 | 0x9a | 0x9b | 0x9c | 0x9d | 0x9e => some 2
  | 0x9f | 0xa0 | 0xa1 | 0xa2 | 0xa3 | 0xa4 => some 2
  | 0xa5 => some 3
  | _ => none

end Calculation

open Calculation

/-- The code that applies the function. -/
def UnaryNumber.code : UnaryNumber → UInt8
  | increment => 0x8b
  | decrement => 0x8c
  | negate => 0x8f
  | abs => 0x90
  | not => 0x91
  | isNonzero => 0x92

/-- The code that applies the function. -/
def BinaryNumber.code : BinaryNumber → UInt8
  | add => 0x93
  | sub => 0x94
  | and => 0x9a
  | or => 0x9b
  | equal => 0x9c
  | notEqual => 0x9e
  | less => 0x9f
  | greater => 0xa0
  | lessOrEqual => 0xa1
  | greaterOrEqual => 0xa2
  | min => 0xa3
  | max => 0xa4

theorem UnaryNumber.standard?_code (f : UnaryNumber) :
    Handler.standard? f.code = some (.unary f) := by
  cases f <;> rfl

theorem BinaryNumber.standard?_code (f : BinaryNumber) :
    Handler.standard? f.code = some (.binary f) := by
  cases f <;> rfl

theorem UnaryNumber.calculate_code (f : UnaryNumber) (a : Int) :
    calculate f.code [a] = some [f.apply a] := by
  cases f with
  | increment | decrement | negate => rfl
  | abs =>
    simp only [code, calculate, apply]
    grind
  | not | isNonzero => simp only [code, calculate, apply, truth, ofTruth, beq_iff_eq, bne_iff_ne]

theorem BinaryNumber.calculate_code (f : BinaryNumber) (a b : Int) :
    calculate f.code [b, a] = some [f.apply a b] := by
  cases f with
  | add | sub | min | max => rfl
  | _ =>
    simp only [code, calculate, apply, truth, ofTruth, Bool.and_eq_true, Bool.or_eq_true,
      beq_iff_eq, bne_iff_ne, decide_eq_true_eq, gt_iff_lt, ge_iff_le]

/-- The numeric codes with their operands: those of the functions, and two that do more than apply
one. -/
inductive Calculation.Numeric {α : Type} : UInt8 → List α → Prop
  | unary (f : UnaryNumber) (a : α) : Numeric f.code [a]
  | binary (f : BinaryNumber) (b a : α) : Numeric f.code [b, a]
  | verify (b a : α) : Numeric 0x9d [b, a]
  | within (upper lower x : α) : Numeric 0xa5 [upper, lower, x]

theorem Calculation.numeric_of_operands? {α : Type} {opcode : UInt8} {list : List α}
    (counted : operands? opcode = some list.length) : Numeric opcode list := by
  have all : ∀ v, (operands? v).all fun n =>
      match Handler.standard? v with
      | some (.unary f) => n == 1 && v == f.code
      | some (.binary f) => n == 2 && v == f.code
      | some _ => n == 2 && v == 0x9d || n == 3 && v == 0xa5
      | none => false := by
    apply Bytes.forall_byte
    decide +kernel
  have bound := all opcode
  rw [counted, Option.all_some] at bound
  split at bound
  · next f _ =>
    obtain ⟨one, rfl⟩ : list.length = 1 ∧ opcode = f.code := by simpa using bound
    obtain ⟨a, rfl⟩ := List.length_eq_one_iff.mp one
    exact .unary f a
  · next f _ =>
    obtain ⟨two, rfl⟩ : list.length = 2 ∧ opcode = f.code := by simpa using bound
    obtain ⟨b, a, rfl⟩ := List.length_eq_two.mp two
    exact .binary f b a
  · obtain ⟨two, rfl⟩ | ⟨three, rfl⟩ :
        list.length = 2 ∧ opcode = 0x9d ∨ list.length = 3 ∧ opcode = 0xa5 := by simpa using bound
    · obtain ⟨b, a, rfl⟩ := List.length_eq_two.mp two
      exact .verify b a
    · obtain ⟨upper, lower, x, rfl⟩ := List.length_eq_three.mp three
      exact .within upper lower x
  · cases bound

theorem Calculation.Numeric.map {α β : Type} {opcode : UInt8} {list : List α} (f : α → β)
    (h : Numeric opcode list) : Numeric opcode (list.map f) := by
  cases h with
  | unary g a => exact .unary g (f a)
  | binary g b a => exact .binary g (f b) (f a)
  | verify b a => exact .verify (f b) (f a)
  | within upper lower x => exact .within (f upper) (f lower) (f x)

namespace Calculation

/-- What four bytes can spell: the numbers of 32 bits, the least one excepted. -/
def Operand (n : Int) : Prop := -0x7fffffff ≤ n ∧ n ≤ 0x7fffffff

instance (n : Int) : Decidable (Operand n) := inferInstanceAs (Decidable (_ ∧ _))

theorem operand_iff {n : Int} : Operand n ↔ n.natAbs < Bytes.modulus 4 / 2 := by
  have half : Bytes.modulus 4 / 2 = 2 ^ 31 := by decide
  unfold Operand
  omega

theorem operand_number {bytes : Bytes} (short : bytes.length ≤ 4) : Operand (number bytes) :=
  operand_iff.mpr (Script.natAbs_number_lt_of_length_le short)

/-- A number is taken as an operand again where it is as small as one. -/
theorem exists_toNumber_iff {n : Int} :
    (∃ m, Script.toNumber 4 (Script.ofNumber n) = .ok m) ↔ Operand n := by
  rw [operand_iff, ← Script.length_ofNumber_le_iff]
  constructor
  · rintro ⟨m, read⟩
    exact (Script.toNumber_eq_ok_iff.mp read).1
  · exact fun short => ⟨n, Script.toNumber_ofNumber short⟩

/-- The words hold what the items spell, and could be the operands of a code. -/
def Decode (items : List Bytes) (words : List Int64) : Prop :=
  items.Forall₂ (fun item w => Script.toNumber 4 item = .ok w.toInt ∧ Operand w.toInt) words

theorem exists_decode {items : List Bytes} (short : ∀ item ∈ items, item.length ≤ 4) :
    ∃ words, Decode items words := by
  induction items with
  | nil => exact ⟨[], .nil⟩
  | cons item items ih =>
    obtain ⟨first, later⟩ := List.forall_mem_cons.mp short
    obtain ⟨w, -, spelt⟩ := Script.exists_number_eq (Nat.le_trans first (by decide))
    obtain ⟨words, decoded⟩ := ih later
    refine ⟨w :: words, .cons ⟨?_, ?_⟩ decoded⟩
    · rw [spelt, Script.toNumber_of_length_le first]
    · exact spelt ▸ operand_number first

namespace Decode

variable {items : List Bytes} {words : List Int64}

theorem numbers_eq (decoded : Decode items words) : items.map number = words.map Int64.toInt := by
  induction decoded with
  | nil => rfl
  | @cons item w _ _ first _ ih =>
    have spelt : number item = w.toInt := (Script.toNumber_eq_ok_iff.mp first.1).2
    rw [List.map_cons, List.map_cons, spelt, ih]

theorem small (decoded : Decode items words) : ∀ w ∈ words, Operand w.toInt := by
  intro w member
  obtain ⟨_, -, -, small⟩ := Fallible.exists_of_forall₂ decoded.flip w member
  exact small

end Decode

/-! ## Words -/

theorem toInt_truth (p : Prop) [Decidable p] : (truth p : Int64).toInt = truth p := by
  unfold truth
  split <;> rfl

section

variable {a b : Int64}

theorem toInt_add (ha : Operand a.toInt) (hb : Operand b.toInt) :
    (a + b).toInt = a.toInt + b.toInt := by
  obtain ⟨_, _⟩ := ha
  obtain ⟨_, _⟩ := hb
  rw [Int64.toInt_add]
  exact Int.bmod_eq_of_le (by omega) (by omega)

theorem toInt_sub (ha : Operand a.toInt) (hb : Operand b.toInt) :
    (a - b).toInt = a.toInt - b.toInt := by
  obtain ⟨_, _⟩ := ha
  obtain ⟨_, _⟩ := hb
  rw [Int64.toInt_sub]
  exact Int.bmod_eq_of_le (by omega) (by omega)

theorem toInt_neg (ha : Operand a.toInt) : (-a).toInt = -a.toInt := by
  obtain ⟨_, _⟩ := ha
  rw [Int64.toInt_neg]
  exact Int.bmod_eq_of_le (by omega) (by omega)

theorem calculate_words_unary (f : UnaryNumber) (ha : Operand a.toInt) :
    (calculate f.code [a]).map (List.map Int64.toInt) = calculate f.code [a.toInt] := by
  have one : Operand (1 : Int64).toInt := by decide
  cases f with
  | increment => simp [UnaryNumber.code, calculate, toInt_add ha one]
  | decrement => simp [UnaryNumber.code, calculate, toInt_sub ha one]
  | negate => simp [UnaryNumber.code, calculate, toInt_neg ha]
  | abs =>
    simp [UnaryNumber.code, calculate, apply_ite Int64.toInt, toInt_neg ha, Int64.lt_iff_toInt_lt]
  | not | isNonzero => simp [UnaryNumber.code, calculate, toInt_truth, ← Int64.toInt_inj]

theorem calculate_words_binary (f : BinaryNumber) (ha : Operand a.toInt) (hb : Operand b.toInt) :
    (calculate f.code [b, a]).map (List.map Int64.toInt) =
      calculate f.code [b.toInt, a.toInt] := by
  cases f with
  | add => simp [BinaryNumber.code, calculate, toInt_add ha hb]
  | sub => simp [BinaryNumber.code, calculate, toInt_sub ha hb]
  | _ =>
    simp [BinaryNumber.code, calculate, toInt_truth, apply_ite Int64.toInt, ← Int64.toInt_inj,
      Int64.lt_iff_toInt_lt, Int64.le_iff_toInt_le]

end

/-- Words calculate what integers do, as long as they hold operands. -/
theorem calculate_words {opcode : UInt8} {words : List Int64} (numeric : Numeric opcode words)
    (small : ∀ w ∈ words, Operand w.toInt) :
    (calculate opcode words).map (List.map Int64.toInt) =
      calculate opcode (words.map Int64.toInt) := by
  cases numeric with
  | unary f a => exact calculate_words_unary f (small a (by simp))
  | binary f b a => exact calculate_words_binary f (small a (by simp)) (small b (by simp))
  | verify b a => simp [calculate, apply_ite, ← Int64.toInt_inj]
  | within upper lower x =>
    simp [calculate, toInt_truth, Int64.lt_iff_toInt_lt, Int64.le_iff_toInt_le]

/-- Five bytes are enough for what comes of operands. -/
theorem length_ofNumber_calculate_le {opcode : UInt8} {numbers results : List Int}
    (numeric : Numeric opcode numbers) (small : ∀ n ∈ numbers, Operand n)
    (done : calculate opcode numbers = some results) :
    ∀ r ∈ results, (Script.ofNumber r).length ≤ 5 := by
  have bound : ∀ r : Int, r.natAbs < 2 ^ 32 → (Script.ofNumber r).length ≤ 5 := fun r below =>
    Script.length_ofNumber_le_of_lt_half (Nat.lt_of_lt_of_le below (by decide))
  cases numeric with
  | unary f a =>
    rw [f.calculate_code] at done
    cases done
    obtain ⟨_, _⟩ := small a (by simp)
    have most := f.natAbs_apply_le a
    exact List.forall_mem_singleton.mpr (bound _ (by omega))
  | binary f b a =>
    rw [f.calculate_code] at done
    cases done
    obtain ⟨_, _⟩ := small a (by simp)
    obtain ⟨_, _⟩ := small b (by simp)
    have most := f.natAbs_apply_le a b
    exact List.forall_mem_singleton.mpr (bound _ (by omega))
  | verify b a =>
    simp only [calculate] at done
    split at done <;> cases done
    exact nofun
  | within upper lower x =>
    cases done
    refine List.forall_mem_singleton.mpr (bound _ ?_)
    unfold truth
    split <;> decide

/-- Only OP_NUMEQUALVERIFY refuses numbers. -/
theorem eq_of_calculate_eq_none {opcode : UInt8} {numbers : List Int}
    (numeric : Numeric opcode numbers) (refused : calculate opcode numbers = none) :
    opcode = 0x9d := by
  cases numeric with
  | unary f a =>
    rw [f.calculate_code] at refused
    cases refused
  | binary f b a =>
    rw [f.calculate_code] at refused
    cases refused
  | verify => rfl
  | within => cases refused

end Calculation

/-- An action takes one number after another from the stack, and goes on as another action. -/
inductive Call.Takes (call : Call) : Action String → List Int → Action String → Prop
  | done (m : Action String) : Takes call m [] m
  | take {k : Int → Action String} {n : Int} {rest : List Int} {m : Action String}
      (next : Takes call (k n) rest m) : Takes call (call.popNumber >>= k) (n :: rest) m
  | require {n : Nat} {m m' : Action String} {numbers : List Int} (count : numbers.length = n)
      (next : Takes call m numbers m') : Takes call (call.require n >>= fun _ => m) numbers m'

/-- The action puts numbers on the stack, or fails where there are none to put. -/
def Action.Puts (m : Action String) : Option (List Int) → Prop
  | some results => ∀ s : State, ∃ report,
      m s = .ok report { s with stack := results.map Script.ofNumber ++ s.stack }
  | none => ∀ s, ∃ e, m s = .error e s

/-- The action takes operands and leaves what is calculated from them. -/
def Call.Carries (call : Call) (m : Action String) (numbers : List Int)
    (results : Option (List Int)) : Prop :=
  ∃ m', call.Takes m numbers m' ∧ m'.Puts results

namespace Call

variable {call : Call} {s : State} {item : Bytes} {rest : List Bytes}

theorem popNumber_of_short (top : s.stack = item :: rest) (short : item.length ≤ 4) :
    call.popNumber s = .ok (number item) { s with stack := rest } := by
  have read : Script.toNumber Limits.numberSize item = .ok (number item) :=
    Script.toNumber_of_length_le short
  rw [call.popNumber_of_cons top, read]

theorem popNumber_of_long (top : s.stack = item :: rest) (long : 4 < item.length) :
    call.popNumber s =
      .error (.script (.numberTooLong item.length 4)) { s with stack := rest } := by
  have refused : Script.toNumber Limits.numberSize item =
      .error (.script (.numberTooLong item.length 4)) := if_pos long
  rw [call.popNumber_of_cons top, refused]

namespace Takes

/-- Where all operands are short enough, the action goes on below them. -/
theorem run {m m' : Action String} {operands rest : List Bytes}
    (takes : call.Takes m (operands.map number) m') (stack : s.stack = operands ++ rest)
    (short : ∀ item ∈ operands, item.length ≤ 4) : m s = m' { s with stack := rest } := by
  generalize counted : operands.map number = numbers at takes
  induction takes generalizing s operands with
  | done m =>
    obtain rfl := List.map_eq_nil_iff.mp counted
    cases s
    cases stack
    rfl
  | take next ih =>
    obtain ⟨item, others, rfl, rfl, rfl⟩ := List.map_eq_cons_iff.mp counted
    obtain ⟨first, later⟩ := List.forall_mem_cons.mp short
    rw [Action.bind_of_ok (popNumber_of_short stack first)]
    exact ih rfl later rfl
  | require count next ih =>
    rw [Action.bind_of_ok (call.require_of_le (by simp [← count, ← counted, stack]))]
    exact ih stack short counted

/-- The first operand that is too long stops the action, and those below it stay. -/
theorem refuse {m m' : Action String} {above others rest : List Bytes} {item : Bytes}
    (takes : call.Takes m ((above ++ item :: others).map number) m')
    (stack : s.stack = above ++ item :: others ++ rest)
    (short : ∀ other ∈ above, other.length ≤ 4) (long : 4 < item.length) :
    m s = .error (.script (.numberTooLong item.length 4)) { s with stack := others ++ rest } := by
  generalize counted : (above ++ item :: others).map number = numbers at takes
  induction takes generalizing s above with
  | done m => simp at counted
  | take next ih =>
    cases above with
    | nil =>
      rw [Action.bind_apply, popNumber_of_long stack long]
      rfl
    | cons first above =>
      obtain ⟨head, later⟩ := List.forall_mem_cons.mp short
      obtain ⟨rfl, rfl⟩ := List.cons.inj counted
      rw [Action.bind_of_ok (popNumber_of_short stack head)]
      exact ih rfl later rfl
  | require count next ih =>
    rw [Action.bind_of_ok (call.require_of_le (by simp [← count, ← counted, stack]))]
    exact ih stack short counted

end Takes

/-! ## The codes -/

theorem unary_carries (f : UnaryNumber) (a : Int) :
    call.Carries (call.unary f) [a] (some [f.apply a]) :=
  ⟨_, .take (.done _), fun _ => ⟨_, rfl⟩⟩

theorem binary_carries (f : BinaryNumber) (a b : Int) :
    call.Carries (call.binary f) [b, a] (some [f.apply a b]) :=
  ⟨_, .require rfl (.take (.take (.done _))), fun _ => ⟨_, rfl⟩⟩

theorem verifyEqualNumbers_carries (a b : Int) :
    call.Carries call.verifyEqualNumbers [b, a] (calculate 0x9d [b, a]) := by
  refine ⟨_, .require rfl (.take (.take (.done _))), ?_⟩
  by_cases same : a = b
  · simp only [calculate, if_pos same]
    exact fun s => ⟨_, rfl⟩
  · simp only [calculate, if_neg same]
    exact fun s => ⟨_, rfl⟩

theorem within_carries (x lower upper : Int) :
    call.Carries call.within [upper, lower, x] (calculate 0xa5 [upper, lower, x]) := by
  have item : Script.ofBool (lower ≤ x && x < upper) =
      Script.ofNumber (truth (lower ≤ x ∧ x < upper)) := by
    rw [← ofNumber_ofTruth, ofTruth, truth]
    simp only [Bool.and_eq_true, decide_eq_true_eq]
  refine ⟨_, .require rfl (.take (.take (.take (.done _)))), fun s => ?_⟩
  rw [List.map_singleton, ← item]
  exact ⟨_, rfl⟩

/-- **A numeric code takes its operands and leaves what it is to calculate.** -/
theorem behave_carries (call : Call) {opcode : UInt8} {numbers : List Int}
    (numeric : Numeric opcode numbers) :
    call.Carries (call.behave opcode) numbers (calculate opcode numbers) := by
  cases numeric with
  | unary f a =>
    rw [f.calculate_code, behave, f.standard?_code]
    exact unary_carries f a
  | binary f b a =>
    rw [f.calculate_code, behave, f.standard?_code]
    exact binary_carries f a b
  | verify b a => exact verifyEqualNumbers_carries a b
  | within upper lower x => exact within_carries x lower upper

/-- **The numeric codes calculate exactly.** A code fails at the first of its operands that is too
long, and those below it stay. Where none is, words of 64 bits hold the operands and calculate the
same as integers, with no wrapping around. The results take the place of the operands in their
shortest form, which has five bytes at most, and are taken as operands again if they are as small.
Only OP_NUMEQUALVERIFY refuses numbers, by failing. -/
theorem behave_exact (call : Call) {opcode : UInt8} {s : State} {operands rest : List Bytes}
    (counted : operands? opcode = some operands.length) (stack : s.stack = operands ++ rest) :
    ((∃ item ∈ operands, 4 < item.length) → ∃ above item others,
      operands = above ++ item :: others ∧ (∀ other ∈ above, other.length ≤ 4) ∧ 4 < item.length ∧
      call.behave opcode s =
        .error (.script (.numberTooLong item.length 4)) { s with stack := others ++ rest }) ∧
    ((∀ item ∈ operands, item.length ≤ 4) → ∃ words, Decode operands words ∧
      (calculate opcode words).map (List.map Int64.toInt) =
        calculate opcode (words.map Int64.toInt) ∧
      (calculate opcode (words.map Int64.toInt) = none →
        opcode = 0x9d ∧ ∃ e s', call.behave opcode s = .error e s') ∧
      ∀ results, calculate opcode (words.map Int64.toInt) = some results →
        (∃ report, call.behave opcode s =
          .ok report { s with stack := results.map Script.ofNumber ++ rest }) ∧
        ∀ r ∈ results, (Script.ofNumber r).length ≤ 5 ∧
          ((∃ n, Script.toNumber 4 (Script.ofNumber r) = .ok n) ↔ Operand r)) := by
  obtain ⟨m, takes, puts⟩ := call.behave_carries ((numeric_of_operands? counted).map number)
  constructor
  · rintro ⟨item, member, long⟩
    obtain ⟨above, first, others, rfl, short, fails⟩ := Fallible.exists_first
      (p := fun item : Bytes => item.length ≤ 4) fun all => Nat.not_le_of_gt long (all item member)
    have tooLong : 4 < first.length := Nat.lt_of_not_le fails
    exact ⟨above, first, others, rfl, short, tooLong, takes.refuse stack short tooLong⟩
  · intro short
    obtain ⟨words, decoded⟩ := exists_decode short
    have ran := takes.run stack short
    rw [decoded.numbers_eq] at puts
    have numeric : Numeric opcode words := numeric_of_operands? (decoded.length_eq ▸ counted)
    refine ⟨words, decoded, calculate_words numeric decoded.small, fun refused => ?_,
      fun results done => ⟨?_, fun r member => ⟨?_, exists_toNumber_iff⟩⟩⟩
    · rw [refused] at puts
      obtain ⟨e, failed⟩ := puts { s with stack := rest }
      exact ⟨eq_of_calculate_eq_none (numeric.map Int64.toInt) refused, e, _, ran.trans failed⟩
    · rw [done] at puts
      obtain ⟨report, left⟩ := puts { s with stack := rest }
      exact ⟨report, ran.trans left⟩
    · have small : ∀ n ∈ words.map Int64.toInt, Operand n := List.forall_mem_map.mpr decoded.small
      exact length_ofNumber_calculate_le (numeric.map Int64.toInt) small done r member

/-- The least operand taken from the largest needs a fifth byte, and an end of an interval that is
too long keeps the number below it on the stack. -/
theorem behave_exact_wide :
    (∃ report, behave ⟨⟨0, 1, 0x94, none⟩, "OP_SUB", [0x94], ⟨none, 0, 0⟩⟩ 0x94
        { State.empty with stack := [[0xff, 0xff, 0xff, 0xff], [0xff, 0xff, 0xff, 0x7f], [7]] } =
      .ok report { State.empty with stack := [[0xfe, 0xff, 0xff, 0xff, 0], [7]] }) ∧
    ∃ above item others, [[1], [0, 0, 0, 0, 1], [2]] = above ++ item :: others ∧
      behave ⟨⟨0, 1, 0xa5, none⟩, "OP_WITHIN", [0xa5], ⟨none, 0, 0⟩⟩ 0xa5
          { State.empty with stack := [[1], [0, 0, 0, 0, 1], [2], [7]] } =
        .error (.script (.numberTooLong item.length 4))
          { State.empty with stack := others ++ [[7]] } := by
  constructor
  · have sub := @behave_exact ⟨⟨0, 1, 0x94, none⟩, "OP_SUB", [0x94], ⟨none, 0, 0⟩⟩ 0x94
      { State.empty with stack := [[0xff, 0xff, 0xff, 0xff], [0xff, 0xff, 0xff, 0x7f], [7]] }
      [[0xff, 0xff, 0xff, 0xff], [0xff, 0xff, 0xff, 0x7f]] [[7]] rfl rfl
    obtain ⟨words, decoded, -, -, exact⟩ := sub.2 (by decide)
    exact (exact [4294967294] (decoded.numbers_eq ▸ by decide)).1
  · have within := @behave_exact ⟨⟨0, 1, 0xa5, none⟩, "OP_WITHIN", [0xa5], ⟨none, 0, 0⟩⟩ 0xa5
      { State.empty with stack := [[1], [0, 0, 0, 0, 1], [2], [7]] }
      [[1], [0, 0, 0, 0, 1], [2]] [[7]] rfl rfl
    obtain ⟨above, item, others, order, -, -, failed⟩ := within.1 (by decide)
    exact ⟨above, item, others, order, failed⟩

end Call
end LedgerScript
