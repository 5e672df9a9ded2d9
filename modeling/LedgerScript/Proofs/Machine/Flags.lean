import LedgerScript.Chain.Preset
import LedgerScript.Proofs.Machine.Effects
import LedgerScript.Proofs.Machine.Evaluation

/-!
Verification flags only restrict.

Two behaviours look at the flags, and where they do not fail they leave the state as it is. With
fewer flags they do no more than that, so a run that succeeds takes the same course without them.
-/
namespace LedgerScript

namespace Spend

/-- The spend where operations reserved for later upgrades are not discouraged and, if so asked,
lock times are not enforced. -/
def relaxed (spend : Spend) (unenforced : Bool) : Spend :=
  let flags := spend.flags &&& ~~~Limits.discourageUpgradable
  { spend with flags := if unenforced then flags &&& ~~~Limits.checkLockTime else flags }

variable (spend : Spend) (unenforced : Bool)

theorem has_discourageUpgradable_relaxed :
    (spend.relaxed unenforced).has Limits.discourageUpgradable = false := by
  have cleared : ~~~Limits.discourageUpgradable &&& Limits.discourageUpgradable = 0 := by decide
  have kept : ~~~Limits.checkLockTime &&& Limits.discourageUpgradable =
      Limits.discourageUpgradable := by decide
  cases unenforced <;> simp [has, relaxed, UInt32.and_assoc, cleared, kept]

theorem has_checkLockTime_relaxed :
    (spend.relaxed unenforced).has Limits.checkLockTime =
      (spend.has Limits.checkLockTime && !unenforced) := by
  have cleared : ~~~Limits.checkLockTime &&& Limits.checkLockTime = 0 := by decide
  have kept : ~~~Limits.discourageUpgradable &&& Limits.checkLockTime = Limits.checkLockTime := by
    decide
  cases unenforced <;> simp [has, relaxed, UInt32.and_assoc, cleared, kept]

end Spend

namespace Call

/-- The same operation under other flags. -/
def withFlags (call : Call) (flags : UInt32) : Call :=
  { call with spend := { call.spend with flags := flags } }

theorem popMany_withFlags (call : Call) (flags : UInt32) :
    (call.withFlags flags).popMany = call.popMany := by
  funext n
  induction n with
  | zero => rfl
  | succ n ih =>
    rw [popMany, popMany, ih]
    rfl

theorem checkMultiSigResult_withFlags (call : Call) (flags : UInt32) :
    (call.withFlags flags).checkMultiSigResult = call.checkMultiSigResult := by
  unfold checkMultiSigResult
  rw [popMany_withFlags]
  rfl

theorem checkMultiSig_withFlags (call : Call) (flags : UInt32) (verifying : Bool) :
    (call.withFlags flags).checkMultiSig verifying = call.checkMultiSig verifying := by
  unfold checkMultiSig
  rw [checkMultiSigResult_withFlags]
  rfl

end Call

/-- Whether what the behaviour does depends on the flags. -/
def Handler.readsFlags : Handler → Bool
  | upgradable | checkLockTime true => true
  | _ => false

theorem Handler.run_withFlags {handler : Handler} (blind : handler.readsFlags = false) (call : Call)
    (flags : UInt32) : handler.run (call.withFlags flags) = handler.run call := by
  cases handler with
  | upgradable => cases blind
  | checkLockTime optional =>
    cases optional with
    | true => cases blind
    | false => rfl
  | checkMultiSig verifying => exact call.checkMultiSig_withFlags flags verifying
  | _ => rfl

namespace Call

/-- The same operation with fewer flags. -/
def relaxed (call : Call) (unenforced : Bool) : Call :=
  { call with spend := call.spend.relaxed unenforced }

variable {call : Call} {s s' : State} {report : String}

theorem upgradable_relaxed (call : Call) (unenforced : Bool) :
    (call.relaxed unenforced).upgradable = call.nop := by
  have permitted : (call.relaxed unenforced).spend.has Limits.discourageUpgradable = false :=
    call.spend.has_discourageUpgradable_relaxed unenforced
  rw [upgradable, permitted]
  rfl

theorem state_of_upgradable (ran : call.upgradable s = .ok report s') : s' = s := by
  unfold upgradable at ran
  split at ran
  · cases ran
  · exact (Action.pure_eq_ok_iff.mp ran).2

theorem checkLockTime_true_relaxed (unenforced : Bool)
    (ran : call.checkLockTime true s = .ok report s') :
    ∃ report', (call.relaxed unenforced).checkLockTime true s = .ok report' s' := by
  have enforced : (call.relaxed unenforced).spend.has Limits.checkLockTime =
      (call.spend.has Limits.checkLockTime && !unenforced) :=
    call.spend.has_checkLockTime_relaxed unenforced
  unfold checkLockTime at ran ⊢
  rw [upgradable_relaxed, enforced]
  cases flagged : call.spend.has Limits.checkLockTime with
  | false =>
    rw [flagged] at ran
    rw [state_of_upgradable ran]
    exact ⟨_, rfl⟩
  | true =>
    rw [flagged] at ran
    cases unenforced with
    | false => exact ⟨report, ran⟩
    | true =>
      -- the check that is left out has succeeded, and then it has changed nothing
      rw [(verifyLockTime_leads_iff.mp ⟨_, ran⟩).1]
      exact ⟨_, rfl⟩

end Call

/-- **A behaviour that succeeds does the same with fewer flags.** Only the report may differ. -/
theorem Handler.run_relaxed (handler : Handler) {call : Call} (unenforced : Bool) {s s' : State}
    {report : String} (ran : handler.run call s = .ok report s') :
    ∃ report', handler.run (call.relaxed unenforced) s = .ok report' s' := by
  cases reads : handler.readsFlags with
  | false =>
    have same := handler.run_withFlags reads call (call.spend.relaxed unenforced).flags
    exact ⟨report, (congrFun same s).trans ran⟩
  | true =>
    cases handler with
    | upgradable =>
      rw [Call.state_of_upgradable ran, Handler.run, Call.upgradable_relaxed]
      exact ⟨_, rfl⟩
    | checkLockTime optional =>
      cases optional with
      | true => exact Call.checkLockTime_true_relaxed unenforced ran
      | false => cases reads
    | _ => cases reads

section

variable {table : Table} {spend : Spend} {script : Script}

theorem execute_relaxed (unenforced : Bool) {op : Operation} {s s' : State} {report : String}
    (ran : execute table spend script op s = .ok report s') :
    ∃ report', execute table (spend.relaxed unenforced) script op s = .ok report' s' := by
  obtain ⟨fits, allowed, ran⟩ := execute_eq_ok_iff.mp ran
  by_cases runs : (s.isExecuting || Opcode.isConditional op.opcode) = true
  · rw [if_pos runs] at ran
    obtain ⟨bound, entry, found, handled⟩ := dispatch_eq_ok_iff.mp ran
    obtain ⟨report', relaxed⟩ := entry.handler.run_relaxed unenforced handled
    refine ⟨report', execute_eq_ok_iff.mpr ⟨fits, allowed, ?_⟩⟩
    rw [if_pos runs]
    exact dispatch_eq_ok_iff.mpr ⟨bound, entry, found, relaxed⟩
  · rw [if_neg runs] at ran
    refine ⟨report, execute_eq_ok_iff.mpr ⟨fits, allowed, ?_⟩⟩
    rw [if_neg runs]
    exact ran

end

namespace Run

/-- A run that differs from another in having fewer flags and in what its steps report. -/
structure Relaxes (unenforced : Bool) (lax strict : Run) : Prop where
  script : lax.script = strict.script
  table : lax.table = strict.table
  spend : lax.spend = strict.spend.relaxed unenforced
  state : lax.state = strict.state
  pending : lax.pending = strict.pending
  outcome : lax.outcome = strict.outcome

variable {unenforced : Bool} {lax strict : Run}

theorem Relaxes.after (h : lax.Relaxes unenforced strict) {op : Operation} {rest : List Operation}
    (sound : ∀ e, (strict.after op rest).outcome ≠ .failed e) :
    (lax.after op rest).Relaxes unenforced (strict.after op rest) := by
  cases ran : execute strict.table strict.spend strict.script op strict.state with
  | error e s =>
    rw [after_of_error ran] at sound
    exact absurd rfl (sound e)
  | ok report s =>
    obtain ⟨report', relaxed⟩ := execute_relaxed unenforced ran
    rw [← h.table, ← h.spend, ← h.script, ← h.state] at relaxed
    rw [after_of_ok ran, after_of_ok relaxed]
    exact ⟨h.script, h.table, h.spend, rfl, rfl, rfl⟩

theorem Relaxes.finish (h : lax.Relaxes unenforced strict) :
    lax.finish.Relaxes unenforced strict.finish := by
  unfold Run.finish
  rw [h.state]
  split
  · exact ⟨h.script, h.table, h.spend, rfl, h.pending, rfl⟩
  · exact ⟨h.script, h.table, h.spend, rfl, h.pending, rfl⟩

/-- A step that does not fail does the same with fewer flags. -/
theorem step_relaxed (h : lax.Relaxes unenforced strict)
    (sound : ∀ e, strict.step.2.outcome ≠ .failed e) :
    lax.step.2.Relaxes unenforced strict.step.2 := by
  obtain ⟨ended, same⟩ | ⟨running, op, rest, next, same⟩ | ⟨running, none, same⟩ :=
    strict.step_cases
  · rw [same, step_of_ended (h.outcome ▸ ended)]
    exact h
  · rw [same] at sound ⊢
    rw [step_of_cons lax (h.outcome.trans running) (h.pending.trans next)]
    exact h.after sound
  · rw [same, step_of_nil lax (h.outcome.trans running) (h.pending.trans none)]
    exact h.finish

theorem advance_relaxed (h : lax.Relaxes unenforced strict)
    (sound : ∀ n e, (strict.advance n).outcome ≠ .failed e) (n : Nat) :
    (lax.advance n).Relaxes unenforced (strict.advance n) := by
  induction n with
  | zero => exact h
  | succ n ih =>
    have next := sound (n + 1)
    rw [advance_succ] at next ⊢
    rw [advance_succ]
    exact step_relaxed ih next

theorem onStack_relaxed (unenforced : Bool) (script : Script) (table : Table) (spend : Spend)
    (stack : List Bytes) :
    (onStack script table (spend.relaxed unenforced) stack).Relaxes unenforced
      (onStack script table spend stack) := by
  unfold onStack start
  cases operationsToRun script <;> exact ⟨rfl, rfl, rfl, rfl, rfl, rfl⟩

theorem complete_onStack_relaxed (unenforced : Bool) {script : Script} {table : Table}
    {spend : Spend} {stack : List Bytes}
    (succeeds : (onStack script table spend stack).complete.outcome = .success) :
    (onStack script table (spend.relaxed unenforced) stack).complete.Relaxes unenforced
      (onStack script table spend stack).complete := by
  have starts := onStack_relaxed unenforced script table spend stack
  rw [complete_eq_advance, complete_eq_advance, starts.pending]
  exact advance_relaxed starts (advance_ne_failed succeeds) _

end Run

theorem evaluate_relaxed (unenforced : Bool) {script : Script} {table : Table} {spend : Spend}
    {stack : List Bytes} {s : State} (left : evaluate script table spend stack = .ok s) :
    evaluate script table (spend.relaxed unenforced) stack = .ok s := by
  obtain ⟨succeeds, rfl⟩ := Run.complete_onStack_success_iff.mpr left
  have relaxes := Run.complete_onStack_relaxed unenforced succeeds
  exact Run.complete_onStack_success_iff.mp ⟨relaxes.outcome.trans succeeds, relaxes.state⟩

/-- **Flags only restrict.** A run that succeeds does so where upgradable operations are not
discouraged, whether lock times are enforced then or no longer, and is in the same state after every
step; and what verification accepts it accepts then as well. -/
theorem Run.complete_relaxed (table : Table) (spend : Spend) (unenforced : Bool) :
    (∀ script stack, (onStack script table spend stack).complete.outcome = .success →
      (onStack script table (spend.relaxed unenforced) stack).complete.outcome = .success ∧
      ∀ n, ((onStack script table (spend.relaxed unenforced) stack).advance n).state =
        ((onStack script table spend stack).advance n).state) ∧
    ∀ unlocking locking, verifyScripts unlocking locking table spend = .ok true →
      verifyScripts unlocking locking table (spend.relaxed unenforced) = .ok true := by
  refine ⟨fun script stack succeeds => ⟨?_, fun n => ?_⟩, fun unlocking locking accepted => ?_⟩
  · exact (complete_onStack_relaxed unenforced succeeds).outcome.trans succeeds
  · have starts := onStack_relaxed unenforced script table spend stack
    exact (advance_relaxed starts (advance_ne_failed succeeds) n).state
  · obtain ⟨s, unlocked, s', locked, top⟩ := verifyScripts_eq_ok_iff.mp accepted
    exact verifyScripts_eq_ok_iff.mpr
      ⟨s, evaluate_relaxed unenforced unlocked, s', evaluate_relaxed unenforced locked, top⟩

/-- The lock time has been reached, and the operation that is discouraged is in a branch that is not
taken. -/
theorem Run.complete_relaxed_reached :
    let tx : Record := ⟨Preset.bitcoinTransaction,
      [("vin", .inputs [⟨OutPoint.null, [], 0⟩]), ("nLockTime", .int 100)]⟩
    let script : Script := [0x00, 0x63, 0xb0, 0x68, 0x01, 0x64, 0xb1]
    let run := onStack script .standard ⟨some tx, 0, 3⟩ []
    let lax := onStack script .standard (Spend.relaxed ⟨some tx, 0, 3⟩ true) []
    run.complete.outcome = .success ∧ lax.complete.outcome = .success ∧
      (lax.advance 6).state = (run.advance 6).state ∧
      verifyScripts [0x51] script .standard ⟨some tx, 0, 3⟩ = .ok true ∧
      verifyScripts [0x51] script .standard (Spend.relaxed ⟨some tx, 0, 3⟩ true) = .ok true := by
  intro tx script run lax
  have succeeds : run.complete.outcome = .success := by decide +kernel
  have accepted : verifyScripts [0x51] script .standard ⟨some tx, 0, 3⟩ = .ok true := by
    decide +kernel
  have restrict := Run.complete_relaxed .standard ⟨some tx, 0, 3⟩ true
  obtain ⟨succeeds', same⟩ := restrict.1 script [] succeeds
  exact ⟨succeeds, succeeds', same 6, accepted, restrict.2 [0x51] script accepted⟩

end LedgerScript
