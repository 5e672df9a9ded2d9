import LedgerScript.Proofs.Machine.Bounded
import LedgerScript.Proofs.Machine.Steps

namespace LedgerScript

/-- What holds of the state of a run that has not failed. -/
structure State.Within (s : State) : Prop where
  short : s.ItemsShort
  depth : s.depth ≤ 1000
  operations : s.operations ≤ 201

theorem State.Within.count {s : State} (hs : s.Within) {op : Operation} (fits : ¬s.Exceeds op) :
    (s.count op).Within := by
  refine ⟨?_, ?_, ?_⟩
  · simpa only [ItemsShort, count_stack, count_alt] using hs.short
  · simpa only [State.depth, count_stack, count_alt] using hs.depth
  · unfold Exceeds at fits
    have limit : Limits.operations = 201 := rfl
    have := hs.operations
    unfold State.count
    split
    · next counted => show s.operations + 1 ≤ 201; grind
    · exact this

open LedgerScript.Action (Meets)

theorem checkDepth_within : Meets State.InLimits checkDepth (fun _ s => s.Within)
    fun _ s => s.ItemsShort :=
  Meets.checkDepth (fun _ hs fits => ⟨hs.1, fits, hs.2⟩) fun _ hs => hs.1

section Operations

variable {table : Table} {spend : Spend} {script : Script} {op : Operation}

theorem dispatch_within (short : ∀ data, op.data = some data → data.length ≤ 520) :
    Meets State.Within (dispatch table spend script op) (fun _ s => s.Within)
      fun _ s => s.ItemsShort := by
  unfold dispatch
  cases table.entry? op.opcode with
  | none => exact Meets.throw fun _ hs => hs.short
  | some entry =>
    have handled := entry.handler.run_bounded ⟨op, entry.name, script, spend⟩ short
    refine Meets.bind (handled.mono ?_ (fun _ _ after => after) fun _ _ after => after)
      fun _ => checkDepth_within.map
    exact fun s hs =>
      ⟨⟨hs.short, hs.operations⟩, Nat.le_trans (Nat.le_add_right _ _) hs.depth⟩

/-- An operation that succeeds leaves a state in the limits; where it fails, items are short. -/
theorem execute_within : Meets State.Within (execute table spend script op) (fun _ s => s.Within)
    fun _ s => s.ItemsShort := by
  intro s hs
  have still : (s.count op).ItemsShort := by
    simpa only [State.ItemsShort, State.count_stack, State.count_alt] using hs.short
  rw [execute_eq]
  by_cases exceeds : s.Exceeds op
  · rw [if_pos exceeds]
    exact still
  · rw [if_neg exceeds]
    cases refused : refuseAnywhere table op with
    | error e => exact still
    | ok u =>
      cases runs : s.isExecuting || Opcode.isConditional op.opcode with
      | true => exact dispatch_within (refuseAnywhere_eq_ok_iff.mp refused).2 _ (hs.count exceeds)
      | false => exact hs.count exceeds

end Operations

/-- What holds at every step of a run: items are short, and if it has not failed the stacks hold at
most 1000 items and at most 201 operations are counted. -/
def Run.InLimits (run : Run) : Prop :=
  (∀ item ∈ run.state.stack ++ run.state.alt, item.length ≤ 520) ∧
  ((∀ e, run.outcome ≠ .failed e) →
    run.state.stack.length + run.state.alt.length ≤ 1000 ∧ run.state.operations ≤ 201)

theorem Run.inLimits_of_within {run : Run} (h : run.state.Within) : run.InLimits :=
  ⟨h.short, fun _ => ⟨h.depth, h.operations⟩⟩

theorem Run.inLimits_of_failed {run : Run} {e : Error} (failed : run.outcome = .failed e)
    (short : run.state.ItemsShort) : run.InLimits :=
  ⟨short, fun h => absurd failed (h e)⟩

theorem Run.within_of_inLimits {run : Run} (h : run.InLimits)
    (running : ∀ e, run.outcome ≠ .failed e) : run.state.Within :=
  ⟨h.1, (h.2 running).1, (h.2 running).2⟩

theorem Run.step_inLimits {run : Run} (h : run.InLimits) : run.step.2.InLimits := by
  obtain ⟨-, same⟩ | ⟨running, op, rest, -, same⟩ | ⟨running, -, same⟩ := run.step_cases
  · rw [same]
    exact h
  · have within := Run.within_of_inLimits h (by simp [running])
    rw [same]
    cases executed : execute run.table run.spend run.script op run.state with
    | ok report s =>
      have after := execute_within.of_ok within executed
      rw [Run.after_of_ok executed]
      exact Run.inLimits_of_within after
    | error e s =>
      have short := execute_within.of_error within executed
      rw [Run.after_of_error executed]
      exact Run.inLimits_of_failed rfl short
  · have within := Run.within_of_inLimits h (by simp [running])
    rw [same]
    unfold Run.finish
    split
    · exact Run.inLimits_of_within within
    · exact Run.inLimits_of_failed rfl within.short

/-- A run starts in the limits if the main stack that is carried over is. -/
theorem Run.start_inLimits (script : Script) (table : Table) (spend : Spend) {state : State}
    (short : ∀ item ∈ state.stack, item.length ≤ 520) (room : state.stack.length ≤ 1000) :
    (Run.start script table spend state).InLimits := by
  have within : state.restart.Within :=
    ⟨by simpa only [State.ItemsShort, State.restart, State.empty, List.append_nil] using short,
      room,
      Nat.zero_le _⟩
  unfold Run.start
  split
  · exact Run.inLimits_of_within within
  · exact Run.inLimits_of_failed rfl within.short

/-- **Limits hold in every run**, for every table: in the run of an unlocking script from empty
stacks, and, if that has not failed, in the run of the locking script on the stack it has left. -/
theorem Run.advance_inLimits (unlocking locking : Script) (table : Table) (spend : Spend) :
    let first := Run.start unlocking table spend .empty
    (∀ n, (first.advance n).InLimits) ∧
    ((∀ e, first.complete.outcome ≠ .failed e) →
      ∀ n, ((Run.start locking table spend first.complete.state).advance n).InLimits) := by
  intro first
  have within (n : Nat) : (first.advance n).InLimits := by
    apply Run.advance_induction _ fun _ => Run.step_inLimits
    exact Run.start_inLimits unlocking table spend (by simp [State.empty]) (by simp [State.empty])
  refine ⟨within, fun running n => Run.advance_induction ?_ (fun _ => Run.step_inLimits) n⟩
  have left := Run.within_of_inLimits (first.complete_eq_advance ▸ within _) running
  apply Run.start_inLimits
  · intro item member
    exact left.short item (List.mem_append_left _ member)
  · exact Nat.le_trans (Nat.le_add_right _ _) left.depth

/-- A number is pushed under a code that is bound to that, and the locking script adds it to
itself. -/
theorem Run.advance_inLimits_rebound :
    let table : Table := ⟨[⟨0xb0, "OP_FAR", .pushNumber⟩]⟩
    let first := Run.start [0xb0] table ⟨none, 0, 0⟩ .empty
    (∀ e, first.complete.outcome ≠ .failed e) ∧
      ((Run.start [0x76, 0x93] table ⟨none, 0, 0⟩ first.complete.state).advance 2).InLimits := by
  intro table first
  have succeeded : first.complete.outcome = .success := by rfl
  have running (e : Error) : first.complete.outcome ≠ .failed e := by simp [succeeded]
  have limits := Run.advance_inLimits [0xb0] [0x76, 0x93] table ⟨none, 0, 0⟩
  exact ⟨running, limits.2 running 2⟩

end LedgerScript
