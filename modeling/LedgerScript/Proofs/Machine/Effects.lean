import LedgerScript.Proofs.Machine.Execution

namespace LedgerScript

variable {s s' s'' : State}

namespace Action

variable {α β : Type}

/-- The action succeeds in the first state and leaves the second. -/
def Leads (m : Action α) (s s' : State) : Prop := ∃ x, m s = .ok x s'

theorem bind_leads_iff {m : Action α} {f : α → Action β} :
    (m >>= f).Leads s s'' ↔ ∃ x s', m s = .ok x s' ∧ (f x).Leads s' s'' := by
  simp only [Leads, bind_eq_ok_iff]
  grind

theorem bind_leads_of_ok {m : Action α} {f : α → Action β} {x : α} (ran : m s = .ok x s') :
    (m >>= f).Leads s s'' ↔ (f x).Leads s' s'' := by
  rw [Leads, bind_of_ok ran, Leads]

theorem pure_leads_iff {x : α} : (pure x : Action α).Leads s s' ↔ s' = s := by
  simp only [Leads, pure_eq_ok_iff, exists_eq_left]

theorem not_throw_leads (e : Error) : ¬(throw e : Action α).Leads s s' := by
  rintro ⟨x, ran⟩
  cases ran

theorem modify_bind_leads_iff {g : State → State} {f : Unit → Action β} :
    (modify g >>= f).Leads s s' ↔ (f ()).Leads (g s) s' := Iff.rfl

theorem push_bind_leads_iff {item : Bytes} {f : Unit → Action β} :
    (push item >>= f).Leads s s' ↔ (f ()).Leads { s with stack := item :: s.stack } s' := Iff.rfl

theorem push_eq_ok_iff {item : Bytes} {u : Unit} :
    push item s = .ok u s' ↔ s' = { s with stack := item :: s.stack } := by
  constructor
  · intro ran
    cases ran
    rfl
  · rintro rfl
    rfl

end Action

open LedgerScript.Action

namespace Call

variable {call : Call}

theorem require_eq_ok_iff {n : Nat} {u : Unit} :
    call.require n s = .ok u s' ↔ n ≤ s.stack.length ∧ s' = s := by
  unfold require
  split <;> grind

theorem pushData_leads_iff :
    call.pushData.Leads s s' ↔ s' = { s with stack := call.op.data.getD [] :: s.stack } := by
  simp only [pushData, bind_leads_iff, push_eq_ok_iff, pure_leads_iff]
  grind

theorem digest_leads_iff {f : ItemDigest} :
    (call.digest f).Leads s s' ↔ ∃ item rest, s.stack = item :: rest ∧
      s' = { s with stack := f.apply item :: rest } := by
  simp only [digest, bind_leads_iff, pop_eq_ok_iff, push_eq_ok_iff, pure_leads_iff]
  grind

theorem unary_leads_iff {f : UnaryNumber} :
    (call.unary f).Leads s s' ↔ ∃ item rest n, s.stack = item :: rest ∧
      Script.toNumber Limits.numberSize item = .ok n ∧
      s' = { s with stack := Script.ofNumber (f.apply n) :: rest } := by
  simp only [unary, bind_leads_iff, popNumber_eq_ok_iff, Action.pushNumber, push_eq_ok_iff,
    pure_leads_iff]
  grind

/-- The verifying form takes two items that are the same. -/
theorem equal_true_leads_iff :
    (call.equal true).Leads s s' ↔ ∃ item rest, s.stack = item :: item :: rest ∧
      s' = { s with stack := rest } := by
  simp only [equal, bind_leads_iff, require_eq_ok_iff, pop_eq_ok_iff, ↓reduceIte]
  constructor
  · rintro ⟨_, _, ⟨-, rfl⟩, right, _, ⟨_, found, rfl⟩, left, _, ⟨rest, found', rfl⟩, ends⟩
    split at ends
    · next same =>
      subst same
      exact ⟨left, rest, found.trans (congrArg _ found'), pure_leads_iff.mp ends⟩
    · exact absurd ends (not_throw_leads _)
  · rintro ⟨item, rest, found, rfl⟩
    refine ⟨(), s, ⟨by simp [found], rfl⟩, item, _, ⟨_, found, rfl⟩, item, _, ⟨rest, rfl, rfl⟩, ?_⟩
    rw [if_pos rfl]
    exact pure_leads_iff.mpr rfl

theorem checkSigResult_eq_ok_iff {valid : Bool} :
    call.checkSigResult s = .ok valid s' ↔ ∃ key signature rest code,
      s.stack = key :: signature :: rest ∧
      call.signedCode s.codeStart [signature] = .ok code ∧
      call.checkOne code signature key = .ok valid ∧ s' = { s with stack := rest } := by
  simp only [checkSigResult, bind_eq_ok_iff, require_eq_ok_iff, pop_eq_ok_iff, get_eq_ok_iff,
    ofExcept_eq_ok_iff]
  constructor
  · rintro ⟨_, _, ⟨-, rfl⟩, key, _, ⟨_, found, rfl⟩, signature, _, ⟨rest, found', rfl⟩, _, _,
      ⟨rfl, rfl⟩, code, _, ⟨covered, rfl⟩, checked, rfl⟩
    exact ⟨key, signature, rest, code, found.trans (congrArg _ found'), covered, checked, rfl⟩
  · rintro ⟨key, signature, rest, code, found, covered, checked, rfl⟩
    exact ⟨(), s, ⟨by simp [found], rfl⟩, key, _, ⟨_, found, rfl⟩, signature, _, ⟨rest, rfl, rfl⟩,
      _, _, ⟨rfl, rfl⟩, code, _, ⟨covered, rfl⟩, checked, rfl⟩

/-- A signature check takes the key and the signature, and leaves whether the signature is valid. -/
theorem checkSig_false_leads_iff :
    (call.checkSig false).Leads s s' ↔ ∃ key signature rest code valid,
      s.stack = key :: signature :: rest ∧
      call.signedCode s.codeStart [signature] = .ok code ∧
      call.checkOne code signature key = .ok valid ∧
      s' = { s with stack := Script.ofBool valid :: rest } := by
  simp only [checkSig, bind_leads_iff, checkSigResult_eq_ok_iff, pushBool, push_eq_ok_iff,
    pure_leads_iff, Bool.false_eq_true, ↓reduceIte]
  grind

theorem verifyLockTime_leads_iff :
    call.verifyLockTime.Leads s s' ↔ s' = s ∧ ∃ item rest lock reached,
      s.stack = item :: rest ∧ Script.toNumber Limits.lockTimeSize item = .ok lock ∧
      call.lockTimeReached lock = .ok reached := by
  simp only [verifyLockTime, bind_leads_iff, top_eq_ok_iff, ofExcept_eq_ok_iff, pure_leads_iff]
  grind

end Call

theorem StackMove.run_leads_iff {move : StackMove} {call : Call} :
    (move.run call).Leads s s' ↔ ∃ stack report, move.apply s.stack = some (stack, report) ∧
      s' = { s with stack := stack } := by
  simp only [Leads, StackMove.run]
  cases moved : move.apply s.stack with
  | none => simp
  | some result =>
    obtain ⟨stack, report⟩ := result
    constructor
    · rintro ⟨_, ran⟩
      cases ran
      exact ⟨stack, report, rfl, rfl⟩
    · rintro ⟨_, _, found, rfl⟩
      cases found
      exact ⟨report, rfl⟩

theorem StackMove.dup_leads_iff {call : Call} :
    (StackMove.dup.run call).Leads s s' ↔ ∃ item rest, s.stack = item :: rest ∧
      s' = { s with stack := item :: item :: rest } := by
  rw [run_leads_iff]
  cases s.stack with
  | nil => simp [apply]
  | cons item rest =>
    simp only [apply, Option.some.injEq, Prod.mk.injEq, List.cons.injEq]
    grind

/-- Runs the standard behaviour of a code, whatever the operation that is being run. -/
def Call.behave (call : Call) (opcode : UInt8) : Action String :=
  match Handler.standard? opcode with
  | some handler => handler.run call
  | none => throw (.unknownOpcode opcode)

section

variable {table : Table} {spend : Spend} {script : Script} {op : Operation}

/-- Outside branches that are not taken an operation does what its behaviour does, once it has been
counted. -/
theorem execute_leads_iff {entry : Entry} (executing : s.isExecuting = true)
    (found : table.entry? op.opcode = some entry) :
    (execute table spend script op).Leads s s' ↔
      ¬s.Exceeds op ∧ refuseAnywhere table op = .ok () ∧ s'.depth ≤ Limits.stackItems ∧
      (entry.handler.run ⟨op, entry.name, script, spend⟩).Leads (s.count op) s' := by
  simp only [Leads, execute_eq_ok_iff, executing, Bool.true_or, ↓reduceIte, dispatch_eq_ok_iff,
    found, Option.some.injEq, exists_eq_left', exists_and_left]

theorem executeAll_cons_leads {ops : List Operation} :
    executeAll table spend script (op :: ops) s = .ok () s'' ↔
      ∃ s', (execute table spend script op).Leads s s' ∧
        executeAll table spend script ops s' = .ok () s'' := by
  simp only [executeAll_cons, Leads]
  grind

end

end LedgerScript
