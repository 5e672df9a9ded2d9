import LedgerScript.Proofs.Machine.Steps
import LedgerScript.Proofs.Machine.Transfer

namespace LedgerScript

/-- A state with further items below those of the main stack. -/
def State.onBase (base : List Bytes) (s : State) : State := { s with stack := s.stack ++ base }

def Step.onBase (base : List Bytes) (step : Step) : Step :=
  { step with stack := step.stack ++ base }

/-- A run with further items below those of the main stack, at this and at every earlier step. -/
def Run.onBase (base : List Bytes) (run : Run) : Run :=
  { run with state := run.state.onBase base, trail := run.trail.map (Step.onBase base) }

/-- No operation of a run is dispatched to a behaviour. -/
def Run.NeverDispatches (run : Run) (handler : Handler) : Prop :=
  ∀ n op rest, (run.advance n).outcome = .running → (run.advance n).pending = op :: rest →
    (run.advance n).table.dispatched? op (run.advance n).state ≠ some handler

/-- After every operation of a run there is room on the stacks for so many further items. -/
def Run.HasRoom (run : Run) (k : Nat) : Prop :=
  ∀ n, (run.advance n).step.1 = true → k + (run.advance (n + 1)).state.depth ≤ Limits.stackItems

instance (run : Run) (handler : Handler) : Decidable (run.NeverDispatches handler) :=
  decidable_of_iff (∀ n < run.pending.length + 1, (run.advance n).outcome = .running →
    ∀ op ∈ (run.advance n).pending.head?,
      (run.advance n).table.dispatched? op (run.advance n).state ≠ some handler) <| by
    -- all operations are among the first steps, and no step after the last of them runs one
    constructor
    · intro h n op rest running next
      have early : n < run.pending.length + 1 :=
        Nat.lt_of_not_le fun late => Run.advance_ended late running
      exact h n early running op (by rw [next]; rfl)
    · intro h n _ running op next
      obtain ⟨rest, next⟩ := List.head?_eq_some_iff.mp next
      exact h n op rest running next

instance (run : Run) (k : Nat) : Decidable (run.HasRoom k) :=
  decidable_of_iff (∀ n < run.pending.length + 1, (run.advance n).step.1 = true →
    k + (run.advance (n + 1)).state.depth ≤ Limits.stackItems) <| by
    constructor
    · intro h n ran
      apply h n _ ran
      refine Nat.lt_of_not_le fun late => ?_
      rw [Run.step_of_ended (Run.advance_ended late)] at ran
      cases ran
    · intro h n _ ran
      exact h n ran

/-- How a state with further items differs from one without. -/
def Difference.base (base : List Bytes) : Difference := ⟨base, 0, [], [], rfl⟩

theorem State.alike_onBase (s : State) (base : List Bytes) :
    s.Alike (.base base) s.branches.length (s.onBase base) :=
  ⟨rfl, rfl, rfl, rfl, rfl, s.branches, rfl, (List.append_nil _).symm, (List.append_nil _).symm⟩

theorem State.Alike.eq_onBase {base : List Bytes} {n : Nat} {s t : State}
    (h : s.Alike (.base base) n t) : t = s.onBase base := by
  obtain ⟨inner, -, hs, ht⟩ := h.branches
  have branches : t.branches = s.branches := ht.trans hs.symm
  have operations : t.operations = s.operations := h.operations.symm
  have stack : t.stack = s.stack ++ base := h.stack
  cases t
  simp only at stack branches operations
  simp only [State.onBase, ← stack, ← branches, ← operations, ← h.alt, ← h.codeStart, ← h.error]

theorem execute_onBase {table : Table} {spend : Spend} {script : Script} {op : Operation}
    {s s' : State} {report : String} {base : List Bytes}
    (run : execute table spend script op s = .ok report s')
    (blind : table.dispatched? op s ≠ some .depth)
    (room : base.length + s'.depth ≤ Limits.stackItems) :
    execute table spend script op (s.onBase base) = .ok report (s'.onBase base) := by
  obtain ⟨t', framed, alike⟩ := execute_transfers (s.alike_onBase base) run
    (fun asked => absurd asked blind) (fun _ _ => rfl) (fun _ => room)
  rw [framed, alike.eq_onBase]

namespace Run

variable {run : Run} {base : List Bytes}

theorem finish_onBase : (run.onBase base).finish = run.finish.onBase base := by
  unfold finish
  by_cases closed : run.state.branches = []
  · rw [if_pos closed]
    exact if_pos closed
  · rw [if_neg closed]
    exact if_neg closed

theorem after_onBase {op : Operation} {rest : List Operation}
    (sound : ∀ e, (run.after op rest).outcome ≠ .failed e)
    (blind : run.table.dispatched? op run.state ≠ some .depth)
    (room : base.length + (run.after op rest).state.depth ≤ Limits.stackItems) :
    (run.onBase base).after op rest = (run.after op rest).onBase base := by
  cases executed : execute run.table run.spend run.script op run.state with
  | error e s =>
    rw [after_of_error executed] at sound
    exact absurd rfl (sound e)
  | ok report s =>
    rw [after_of_ok executed] at room ⊢
    have framed : execute run.table run.spend run.script op (run.state.onBase base) =
        .ok report (s.onBase base) := execute_onBase executed blind room
    exact after_of_ok framed

/-- A step that does not fail is the same step with further items below. -/
theorem step_onBase (sound : ∀ e, run.step.2.outcome ≠ .failed e)
    (blind : ∀ op rest, run.outcome = .running → run.pending = op :: rest →
      run.table.dispatched? op run.state ≠ some .depth)
    (room : run.step.1 = true → base.length + run.step.2.state.depth ≤ Limits.stackItems) :
    (run.onBase base).step = (run.step.1, run.step.2.onBase base) := by
  obtain ⟨ended, same⟩ | ⟨running, op, rest, next, same⟩ | ⟨running, none, same⟩ := run.step_cases
  · rw [same]
    exact step_of_ended ended
  · rw [same] at sound room ⊢
    have framed := after_onBase sound (blind op rest running next) (room rfl)
    have after : (run.onBase base).step = (true, (run.onBase base).after op rest) :=
      (run.onBase base).step_of_cons running next
    rw [after, framed]
  · have finished : (run.onBase base).step = (false, (run.onBase base).finish) :=
      (run.onBase base).step_of_nil running none
    rw [same, finished, finish_onBase]

/-- A run that never fails is the same run with further items below. -/
theorem advance_onBase (sound : ∀ n e, (run.advance n).outcome ≠ .failed e)
    (blind : run.NeverDispatches .depth) (room : run.HasRoom base.length) (n : Nat) :
    (run.onBase base).advance n = (run.advance n).onBase base := by
  induction n with
  | zero => rfl
  | succ n ih =>
    have step : ((run.advance n).onBase base).step =
        ((run.advance n).step.1, (run.advance n).step.2.onBase base) := by
      apply step_onBase
      · rw [← advance_succ]
        exact sound (n + 1)
      · exact blind n
      · rw [← advance_succ]
        exact room n
    rw [advance_succ, advance_succ, ih, step]

theorem onStack_append (script : Script) (table : Table) (spend : Spend) (stack : List Bytes) :
    onStack script table spend (stack ++ base) =
      (onStack script table spend stack).onBase base := by
  unfold onStack start
  cases operationsToRun script <;> rfl

/-- **Items below are never touched.** A run that succeeds and never asks for the depth of the stack
succeeds with any further items below, as long as there is room for them, and after every step the
two runs are the same but for these items. -/
theorem complete_onStack_append (script : Script) (table : Table) (spend : Spend)
    (stack base : List Bytes)
    (succeeds : (onStack script table spend stack).complete.outcome = .success)
    (blind : (onStack script table spend stack).NeverDispatches .depth)
    (room : (onStack script table spend stack).HasRoom base.length) :
    (onStack script table spend (stack ++ base)).complete.outcome = .success ∧
    ∀ n, (onStack script table spend (stack ++ base)).advance n =
      ((onStack script table spend stack).advance n).onBase base := by
  have framed (n : Nat) := advance_onBase (advance_ne_failed succeeds) blind room n
  rw [onStack_append]
  refine ⟨?_, framed⟩
  rw [complete_eq_advance] at succeeds ⊢
  rw [framed]
  exact succeeds

/-- An item is rolled to the top and a branch is taken, above an item that stays. -/
theorem complete_onStack_append_roll :
    let script : Script := [0x51, 0x7a, 0x63, 0x76, 0x68]
    let run := onStack script .standard ⟨none, 0, 0⟩ [[1], [2]]
    let framed := onStack script .standard ⟨none, 0, 0⟩ [[1], [2], [3]]
    run.complete.outcome = .success ∧ run.NeverDispatches .depth ∧ run.HasRoom 1 ∧
      framed.complete.outcome = .success ∧
      ∀ n, framed.advance n = (run.advance n).onBase [[3]] := by
  intro script run framed
  have succeeds : run.complete.outcome = .success := by decide +kernel
  have blind : run.NeverDispatches .depth := by decide +kernel
  have room : run.HasRoom 1 := by decide +kernel
  exact ⟨succeeds, blind, room,
    complete_onStack_append script .standard ⟨none, 0, 0⟩ [[1], [2]] [[3]] succeeds blind room⟩

end Run
end LedgerScript
