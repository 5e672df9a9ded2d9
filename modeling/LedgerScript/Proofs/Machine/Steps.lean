import LedgerScript.Machine.Run

namespace LedgerScript.Run

/-- A run that starts with items on the main stack. -/
def onStack (script : Script) (table : Table) (spend : Spend) (stack : List Bytes) : Run :=
  start script table spend { State.empty with stack := stack }

/-- A run after another step has been asked for so many times. -/
def advance : Nat → Run → Run
  | 0, run => run
  | n + 1, run => advance n run.step.2

/-- The run after an operation that did not fail. -/
theorem after_of_ok {run : Run} {op : Operation} {rest : List Operation} {report : String}
    {state : State} (h : execute run.table run.spend run.script op run.state = .ok report state) :
    run.after op rest = { run with
      state := state
      pending := rest
      position := run.position + 1
      trail := ⟨run.position, op.opcode, run.table.displayName op.opcode, state.stack, report⟩
        :: run.trail
      outcome := .running } := by
  simp only [after, h]

/-- The run after an operation that failed. -/
theorem after_of_error {run : Run} {op : Operation} {rest : List Operation} {e : Error}
    {state : State} (h : execute run.table run.spend run.script op run.state = .error e state) :
    run.after op rest = { run with
      state := { state with error := some e }
      pending := rest
      position := run.position + 1
      trail := ⟨run.position, op.opcode, run.table.displayName op.opcode, state.stack, e.message⟩
        :: run.trail
      outcome := .failed e } := by
  simp only [after, h]

theorem step_of_cons (run : Run) (running : run.outcome = .running) {op : Operation}
    {rest : List Operation} (next : run.pending = op :: rest) :
    run.step = (true, run.after op rest) := by
  simp only [step, running, next]

theorem step_of_nil (run : Run) (running : run.outcome = .running) (none : run.pending = []) :
    run.step = (false, run.finish) := by
  simp only [step, running, none]

theorem step_of_ended {run : Run} (h : run.outcome ≠ .running) : run.step = (false, run) := by
  unfold step
  cases ended : run.outcome with
  | running => exact absurd ended h
  | success | failed e => rfl

/-- A run that has ended stays as it is, one with operations left runs the next of them, and one
without ends. -/
theorem step_cases (run : Run) :
    (run.outcome ≠ .running ∧ run.step = (false, run)) ∨
    (run.outcome = .running ∧ ∃ op rest, run.pending = op :: rest ∧
      run.step = (true, run.after op rest)) ∨
    (run.outcome = .running ∧ run.pending = [] ∧ run.step = (false, run.finish)) := by
  by_cases running : run.outcome = .running
  · cases left : run.pending with
    | nil => exact .inr (.inr ⟨running, rfl, run.step_of_nil running left⟩)
    | cons op rest => exact .inr (.inl ⟨running, op, rest, rfl, run.step_of_cons running left⟩)
  · exact .inl ⟨running, step_of_ended running⟩

theorem finish_ended (run : Run) : run.finish.outcome ≠ .running := by
  unfold finish
  split <;> simp

theorem advance_of_ended {run : Run} (h : run.outcome ≠ .running) (n : Nat) :
    run.advance n = run := by
  induction n with
  | zero => rfl
  | succ n ih => rw [advance, step_of_ended h, ih]

theorem pending_after (run : Run) (op : Operation) (rest : List Operation) :
    (run.after op rest).pending = rest := by
  unfold after
  split <;> rfl

/-- A run ends with the step after its last operation. -/
theorem advance_ended {run : Run} {n : Nat} (h : run.pending.length < n) :
    (run.advance n).outcome ≠ .running := by
  induction n generalizing run with
  | zero => exact absurd h (Nat.not_lt_zero _)
  | succ n ih =>
    rw [advance]
    obtain ⟨ended, same⟩ | ⟨-, op, rest, next, same⟩ | ⟨-, -, same⟩ := run.step_cases <;> rw [same]
    · rw [advance_of_ended ended]
      exact ended
    · apply ih
      rw [pending_after]
      rw [next, List.length_cons] at h
      exact Nat.lt_of_succ_lt_succ h
    · rw [advance_of_ended run.finish_ended]
      exact run.finish_ended

/-- A step that runs no operation leaves a run that has ended. -/
theorem ended_of_step_false {run next : Run} (h : run.step = (false, next)) :
    next.outcome ≠ .running := by
  obtain ⟨ended, same⟩ | ⟨-, op, rest, -, same⟩ | ⟨-, -, same⟩ := run.step_cases <;>
    rw [same] at h <;> cases h
  · exact ended
  · exact run.finish_ended

theorem stepMany_eq_advance (n : Nat) (run : Run) : stepMany n run = run.advance n := by
  induction n generalizing run with
  | zero => rfl
  | succ n ih =>
    rw [stepMany, advance]
    cases h : run.step with
    | mk ran next =>
      cases ran with
      | true => exact ih next
      | false => exact (advance_of_ended (ended_of_step_false h) n).symm

theorem complete_eq_advance (run : Run) : run.complete = run.advance (run.pending.length + 1) :=
  stepMany_eq_advance _ run

/-- What every step preserves holds after any number of steps. -/
theorem advance_induction {p : Run → Prop} {run : Run} (first : p run)
    (step : ∀ r, p r → p r.step.2) (n : Nat) : p (run.advance n) := by
  induction n generalizing run with
  | zero => exact first
  | succ n ih => exact ih (step run first)

theorem advance_add (m n : Nat) (run : Run) : run.advance (m + n) = (run.advance m).advance n := by
  induction m generalizing run with
  | zero => rw [Nat.zero_add, advance]
  | succ m ih => rw [Nat.succ_add, advance, advance, ih]

theorem advance_succ (n : Nat) (run : Run) : run.advance (n + 1) = (run.advance n).step.2 :=
  run.advance_add n 1

/-- However many steps a run has ended after, it is the run to its end. -/
theorem advance_eq_complete {run : Run} {n : Nat} (ended : (run.advance n).outcome ≠ .running) :
    run.advance n = run.complete := by
  rw [complete_eq_advance, ← advance_of_ended ended (run.pending.length + 1), ← advance_add,
    Nat.add_comm, advance_add, advance_of_ended (advance_ended (Nat.lt_succ_self _))]

/-- A run that succeeds in the end has not failed before. -/
theorem advance_ne_failed {run : Run} (h : run.complete.outcome = .success) (n : Nat) (e : Error) :
    (run.advance n).outcome ≠ .failed e := by
  intro failed
  rw [advance_eq_complete (by simp [failed]), h] at failed
  cases failed

end LedgerScript.Run
