import LedgerScript.Proofs.Machine.Effects
import LedgerScript.Proofs.Script.Number

namespace LedgerScript

open Script (isTrue number toNumber)

namespace Script

theorem isTrue_eq_false_iff {bytes : Bytes} :
    isTrue bytes = false ↔
      (∀ b ∈ bytes.dropLast, b = 0) ∧ ∀ b ∈ bytes.getLast?, b = 0 ∨ b = 0x80 := by
  rw [← Bool.not_eq_true, isTrue_iff, not_or]
  simp only [not_exists, not_and, ne_eq, Decidable.not_not, Decidable.or_iff_not_imp_left]

theorem isTrue_iff_toNumber {bytes : Bytes} {limit : Nat} (short : bytes.length ≤ limit) :
    isTrue bytes = true ↔ ∃ n, toNumber limit bytes = .ok n ∧ n ≠ 0 := by
  rw [isTrue_iff_number_ne_zero, toNumber_of_length_le short]
  simp only [Except.ok.injEq, exists_eq_left']

end Script

namespace Call

open LedgerScript.Action

variable {call : Call} {s s' : State} {item : Bytes} {rest : List Bytes}

theorem branch_leads_iff {negated : Bool} (executing : s.isExecuting = true)
    (stack : s.stack = item :: rest) :
    (call.branch negated).Leads s s' ↔
      s' = { s with stack := rest, branches := (isTrue item != negated) :: s.branches } := by
  simp only [Leads, branch_eq_ok_iff, executing, ↓reduceIte, stack]
  constructor
  · rintro ⟨_, _, _, ⟨⟩, rfl, -⟩
    rfl
  · rintro rfl
    exact ⟨_, item, rest, rfl, rfl, rfl⟩

theorem verify_leads_iff (stack : s.stack = item :: rest) :
    call.verify.Leads s s' ↔ isTrue item = true ∧ s' = { s with stack := rest } := by
  rw [verify, bind_leads_of_ok (call.top_of_cons stack)]
  by_cases true : isTrue item = true
  · rw [if_pos true, bind_leads_of_ok (call.pop_of_cons stack), pure_leads_iff]
    exact (and_iff_right true).symm
  · rw [if_neg true]
    exact iff_of_false (not_throw_leads _) fun passed => true passed.1

theorem dupIfTrue_leads_iff (stack : s.stack = item :: rest) :
    call.dupIfTrue.Leads s s' ↔
      s' = { s with stack := if isTrue item then item :: item :: rest else item :: rest } := by
  rw [dupIfTrue, bind_leads_of_ok (call.top_of_cons stack)]
  by_cases true : isTrue item = true
  · rw [if_pos true, if_pos true, push_bind_leads_iff, pure_leads_iff, stack]
  · rw [if_neg true, if_neg true, pure_leads_iff, ← stack]

/-- OP_0NOTEQUAL accepts an item that is short enough, and leaves whether it is true. -/
theorem isNonzero_leads_iff (stack : s.stack = item :: rest) :
    (call.unary .isNonzero).Leads s s' ↔ item.length ≤ Limits.numberSize ∧
      s' = { s with stack := Script.ofBool (isTrue item) :: rest } := by
  have left : Script.ofNumber (UnaryNumber.isNonzero.apply (number item)) =
      Script.ofBool (isTrue item) := by
    have same : (number item != 0) = isTrue item := by
      rw [Bool.eq_iff_iff, bne_iff_ne, Script.isTrue_iff_number_ne_zero]
    rw [UnaryNumber.apply, ofNumber_ofTruth, same]
  simp only [unary_leads_iff, stack, Script.toNumber_eq_ok_iff]
  constructor
  · rintro ⟨_, _, _, ⟨⟩, ⟨short, rfl⟩, rfl⟩
    exact ⟨short, by rw [left]⟩
  · rintro ⟨short, rfl⟩
    exact ⟨item, rest, number item, rfl, ⟨short, rfl⟩, by rw [left]⟩

/-- The codes that ask for the truth of the top item find it so, on some stack. -/
structure AskedAs (s : State) (item : Bytes) (rest : List Bytes) (truth : Bool) : Prop where
  opening : s.isExecuting = true → ∀ (call : Call) s', (call.behave 0x63).Leads s s' ↔
    s' = { s with stack := rest, branches := truth :: s.branches }
  openingNegated : s.isExecuting = true → ∀ (call : Call) s', (call.behave 0x64).Leads s s' ↔
    s' = { s with stack := rest, branches := (!truth) :: s.branches }
  verifying : ∀ (call : Call) s', (call.behave 0x69).Leads s s' ↔
    truth = true ∧ s' = { s with stack := rest }
  duplicating : ∀ (call : Call) s', (call.behave 0x73).Leads s s' ↔
    s' = { s with stack := if truth then item :: item :: rest else item :: rest }

theorem askedAs_isTrue (stack : s.stack = item :: rest) : AskedAs s item rest (isTrue item) where
  opening executing call s' := by
    have opens : call.behave 0x63 = call.branch false := rfl
    rw [opens, branch_leads_iff executing stack, Bool.bne_false]
  openingNegated executing call s' := by
    have opens : call.behave 0x64 = call.branch true := rfl
    rw [opens, branch_leads_iff executing stack, Bool.bne_true]
  verifying _ _ := verify_leads_iff stack
  duplicating _ _ := dupIfTrue_leads_iff stack

/-- **What an item counts as is whether it spells another number than zero.** Up to eight bytes are
read as a number, and count as true if that is not zero. An item of any length counts as false if
all of its bytes but the last are zero, and the last has no bit set but the sign. OP_IF, OP_NOTIF,
OP_VERIFY and OP_IFDUP find of the item on top what OP_0NOTEQUAL leaves in its place, where that
accepts it. -/
theorem truth_agrees :
    (∀ bytes : Bytes, bytes.length ≤ 8 →
      (isTrue bytes = true ↔ ∃ n, toNumber 8 bytes = .ok n ∧ n ≠ 0)) ∧
    (∀ bytes : Bytes, isTrue bytes = false ↔
      (∀ b ∈ bytes.dropLast, b = 0) ∧ ∀ b ∈ bytes.getLast?, b = 0 ∨ b = 0x80) ∧
    ∀ (s : State) item rest, s.stack = item :: rest → ∃ truth, AskedAs s item rest truth ∧
      ∀ (call : Call) s', (call.behave 0x92).Leads s s' ↔
        item.length ≤ 4 ∧ s' = { s with stack := Script.ofBool truth :: rest } := by
  refine ⟨fun bytes => Script.isTrue_iff_toNumber, fun bytes => Script.isTrue_eq_false_iff,
    fun s item rest stack => ⟨isTrue item, askedAs_isTrue stack, fun call s' => ?_⟩⟩
  exact isNonzero_leads_iff stack

/-- A negative zero of eight bytes, and one of two bytes on the stack. -/
theorem truth_agrees_negative_zero :
    (isTrue [0, 0, 0, 0, 0, 0, 0, 0x80] = true ↔
      ∃ n, toNumber 8 [0, 0, 0, 0, 0, 0, 0, 0x80] = .ok n ∧ n ≠ 0) ∧
    ∃ truth, AskedAs { State.empty with stack := [[0, 0x80], [7]] } [0, 0x80] [[7]] truth := by
  obtain ⟨spelt, -, asked⟩ := truth_agrees
  obtain ⟨truth, found, -⟩ := asked { State.empty with stack := [[0, 0x80], [7]] } _ _ rfl
  exact ⟨spelt _ (by decide), truth, found⟩

end Call
end LedgerScript
