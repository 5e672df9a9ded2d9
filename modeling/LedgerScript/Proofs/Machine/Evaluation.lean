import LedgerScript.Proofs.Fallible
import LedgerScript.Proofs.Machine.Execution
import LedgerScript.Proofs.Machine.Steps

/-!
Scripts evaluated in one go.

A run goes step by step and keeps a record of each step. What it comes to is what its operations
come to one after another, so verification is two evaluations, the second on the main stack that
the first has left.
-/
namespace LedgerScript

/-- Whether the top item is true. -/
def State.isAccepted (s : State) : Bool := (s.stack.head?.map Script.isTrue).getD false

/-- Runs operations one after another, and checks last that all branches are closed. -/
def executeClosed (table : Table) (spend : Spend) (script : Script) (ops : List Operation) :
    Action Unit := do
  executeAll table spend script ops
  if (← get).branches ≠ [] then throw (.script .unbalanced)

/-- The state that operations leave, if none fails and all branches are closed then. -/
def evaluateAll (table : Table) (spend : Spend) (script : Script) (ops : List Operation)
    (s : State) : Except Error State :=
  match executeAll table spend script ops s with
  | .error e _ => .error e
  | .ok () s' => if s'.branches = [] then .ok s' else .error (.script .unbalanced)

/-- The state that a script leaves, begun with nothing but items on the main stack. -/
def evaluate (script : Script) (table : Table) (spend : Spend) (stack : List Bytes) :
    Except Error State := do
  let ops ← Run.operationsToRun script
  evaluateAll table spend script ops { State.empty with stack := stack }

section

variable {table : Table} {spend : Spend} {script : Script} {op : Operation} {ops : List Operation}
  {s s' : State} {e : Error} {report : String}

theorem executeClosed_of_executeAll (ran : executeAll table spend script ops s = .ok () s') :
    executeClosed table spend script ops s =
      if s'.branches = [] then .ok () s' else .error (.script .unbalanced) s' := by
  rw [executeClosed, Action.bind_apply, ran]
  dsimp only
  rw [Action.get_bind, ite_not]
  split <;> rfl

theorem executeClosed_of_ok (ran : execute table spend script op s = .ok report s') :
    executeClosed table spend script (op :: ops) s = executeClosed table spend script ops s' := by
  rw [executeClosed, Action.bind_apply, executeAll, Action.bind_apply, ran, executeClosed,
    Action.bind_apply]

theorem executeClosed_of_error (failed : execute table spend script op s = .error e s') :
    executeClosed table spend script (op :: ops) s = .error e s' := by
  rw [executeClosed, Action.bind_apply, executeAll, Action.bind_apply, failed]

theorem evaluateAll_eq (table : Table) (spend : Spend) (script : Script) (ops : List Operation)
    (s : State) : evaluateAll table spend script ops s =
      match executeClosed table spend script ops s with
      | .ok () s' => .ok s'
      | .error e _ => .error e := by
  unfold evaluateAll
  cases ran : executeAll table spend script ops s with
  | error e s' => rw [executeClosed, Action.bind_apply, ran]
  | ok u s' =>
    rw [executeClosed_of_executeAll ran]
    dsimp only
    split <;> rfl

theorem evaluateAll_eq_ok_iff :
    evaluateAll table spend script ops s = .ok s' ↔
      executeAll table spend script ops s = .ok () s' ∧ s'.branches = [] := by
  unfold evaluateAll
  cases executeAll table spend script ops s with
  | error e t => simp
  | ok u t =>
    dsimp only
    split <;> grind

theorem evaluate_eq_ok_iff {stack : List Bytes} :
    evaluate script table spend stack = .ok s ↔ ∃ ops, Run.operationsToRun script = .ok ops ∧
      executeAll table spend script ops { State.empty with stack := stack } = .ok () s ∧
      s.branches = [] := by
  simp only [evaluate, Fallible.bind_eq_ok_iff, evaluateAll_eq_ok_iff]

end

namespace Run

/-- The run has ended as an action has: with success in its state, or with its error, which the
state then tells. -/
def Ends (run : Run) : EStateM.Result Error State Unit → Prop
  | .ok () s => run.outcome = .success ∧ run.state = s
  | .error e s => run.outcome = .failed e ∧ run.state = { s with error := some e }

/-- The run has ended with success in the state, or has failed with the error. -/
def EndsAs (run : Run) : Except Error State → Prop
  | .ok s => run.outcome = .success ∧ run.state = s
  | .error e => run.outcome = .failed e

theorem complete_of_ended {run : Run} (h : run.outcome ≠ .running) : run.complete = run := by
  rw [complete_eq_advance, advance_of_ended h]

theorem complete_of_nil {run : Run} (running : run.outcome = .running)
    (none : run.pending = []) : run.complete = run.finish := by
  rw [complete_eq_advance, none, List.length_nil, advance, step_of_nil run running none, advance]

theorem complete_of_cons {run : Run} (running : run.outcome = .running) {op : Operation}
    {rest : List Operation} (next : run.pending = op :: rest) :
    run.complete = (run.after op rest).complete := by
  rw [complete_eq_advance, complete_eq_advance, next, List.length_cons, pending_after, advance,
    step_of_cons run running next]

/-- **A run ends as its operations do one after another.** -/
theorem complete_ends {run : Run} (running : run.outcome = .running) :
    run.complete.Ends
      (executeClosed run.table run.spend run.script run.pending run.state) := by
  generalize next : run.pending = ops
  induction ops generalizing run with
  | nil =>
    rw [complete_of_nil running next, executeClosed_of_executeAll rfl, finish]
    split <;> exact ⟨rfl, rfl⟩
  | cons op rest ih =>
    rw [complete_of_cons running next]
    cases ran : execute run.table run.spend run.script op run.state with
    | error e s =>
      rw [executeClosed_of_error ran, after_of_error ran, complete_of_ended (by simp)]
      exact ⟨rfl, rfl⟩
    | ok report s =>
      rw [executeClosed_of_ok ran, after_of_ok ran]
      exact ih rfl rfl

theorem complete_endsAs {run : Run} (running : run.outcome = .running) :
    run.complete.EndsAs
      (evaluateAll run.table run.spend run.script run.pending run.state) := by
  have ends := complete_ends running
  rw [evaluateAll_eq]
  cases result : executeClosed run.table run.spend run.script run.pending run.state with
  | ok u s =>
    rw [result] at ends
    exact ends
  | error e s =>
    rw [result] at ends
    exact ends.1

theorem complete_onStack_endsAs (script : Script) (table : Table) (spend : Spend)
    (stack : List Bytes) :
    (onStack script table spend stack).complete.EndsAs (evaluate script table spend stack) := by
  unfold onStack start evaluate
  cases operationsToRun script with
  | error e =>
    rw [complete_of_ended (by simp)]
    exact rfl
  | ok ops => exact complete_endsAs rfl

variable {script : Script} {table : Table} {spend : Spend} {stack : List Bytes}

theorem complete_onStack_success_iff {s : State} :
    (onStack script table spend stack).complete.outcome = .success ∧
        (onStack script table spend stack).complete.state = s ↔
      evaluate script table spend stack = .ok s := by
  have ends := complete_onStack_endsAs script table spend stack
  cases evaluated : evaluate script table spend stack with
  | error e =>
    rw [evaluated] at ends
    have failed : (onStack script table spend stack).complete.outcome = .failed e := ends
    simp [failed]
  | ok t =>
    rw [evaluated] at ends
    obtain ⟨succeeded, same⟩ := ends
    rw [succeeded, same, Except.ok.injEq]
    exact and_iff_right rfl

end Run

/-- What goes on after a run unless it has failed goes on after the evaluation. -/
theorem Run.EndsAs.bind_eq {α : Type} {run : Run} {result : Except Error State}
    (h : run.EndsAs result) (f : State → Except Error α) :
    (match run.outcome with
      | .failed e => .error e
      | _ => f run.state) = result >>= f := by
  cases result with
  | error e =>
    have failed : run.outcome = .failed e := h
    simp only [failed]
    rfl
  | ok s =>
    simp only [h.1, h.2]
    rfl

/-- What a run of the script on these items, begun with nothing else, comes to: whether a true item
is on top, or the error it fails with. -/
def verdict (script : Script) (table : Table) (spend : Spend) (stack : List Bytes) :
    Except Error Bool :=
  let run := (Run.onStack script table spend stack).complete
  match run.outcome with
  | .failed e => .error e
  | _ => .ok run.state.isAccepted

theorem verdict_eq (script : Script) (table : Table) (spend : Spend) (stack : List Bytes) :
    verdict script table spend stack =
      evaluate script table spend stack >>= fun s => .ok s.isAccepted :=
  (Run.complete_onStack_endsAs script table spend stack).bind_eq fun s => .ok s.isAccepted

/-- **Verification is two evaluations**: of the unlocking script with nothing on the stack, and of
the locking script with nothing but the main stack that is left. -/
theorem verifyScripts_eq (unlocking locking : Script) (table : Table) (spend : Spend) :
    verifyScripts unlocking locking table spend =
      evaluate unlocking table spend [] >>= fun s => verdict locking table spend s.stack := by
  have first := Run.complete_onStack_endsAs unlocking table spend []
  rw [← first.bind_eq]
  rfl

theorem verifyScripts_eq_ok_iff {unlocking locking : Script} {table : Table} {spend : Spend}
    {b : Bool} :
    verifyScripts unlocking locking table spend = .ok b ↔
      ∃ s, evaluate unlocking table spend [] = .ok s ∧
        ∃ s', evaluate locking table spend s.stack = .ok s' ∧ s'.isAccepted = b := by
  simp only [verifyScripts_eq, verdict_eq, Fallible.bind_eq_ok_iff, Except.ok.injEq]

end LedgerScript
