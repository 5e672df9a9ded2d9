import LedgerScript.Proofs.Machine.Evaluation
import LedgerScript.Proofs.Machine.Limits
import LedgerScript.Proofs.Machine.Nesting

/-!
Scripts that can succeed at all.

What an operation is checked for in every branch, taken or not, shows in the script itself: a
script that fails such a check cannot be run with success on any stack and for any spend.
-/
namespace LedgerScript

/-- How many operations count against the limit, wherever they stand. -/
def countedAmong (ops : List Operation) : Nat :=
  ops.countP fun op => Opcode.sixteen < op.opcode

/-- What holds of the operations of a script whichever branches are taken. -/
structure Table.Admits (table : Table) (ops : List Operation) : Prop where
  enabled : ∀ op ∈ ops, Opcode.isDisabled op.opcode = true → table.isOverridden op.opcode = true
  short : ∀ op ∈ ops, ∀ data, op.data = some data → data.length ≤ 520
  few : countedAmong ops ≤ 201
  balanced : Balanced ops

section Behaviours

variable {handler : Handler} {call : Call} {s s' : State} {report : String}

/-- A behaviour opens and closes branches by its kind alone, and takes back no count. -/
theorem Handler.run_branches (ran : handler.run call s = .ok report s') :
    s'.branches.length = handler.nest s.branches.length ∧ s.operations ≤ s'.operations := by
  -- the same behaviour where nothing has been counted before: it counts the same there
  let d : Difference := ⟨[], s.operations, [], [], rfl⟩
  have alike : s.Alike d s.branches.length { s with operations := 0 } :=
    ⟨(List.append_nil _).symm, rfl, (Nat.zero_add _).symm, rfl, rfl, s.branches, rfl,
      (List.append_nil _).symm, (List.append_nil _).symm⟩
  obtain ⟨t', -, alike'⟩ :=
    handler.run_transfers call (fun _ => rfl) (fun _ _ => rfl) _ _ alike report s' ran
  obtain ⟨inner, length, branches, -⟩ := alike'.branches
  rw [branches, List.append_nil, alike'.operations]
  exact ⟨length, Nat.le_add_left _ _⟩

/-- A branch is switched or closed only where one is open. -/
theorem Handler.run_inside (ran : handler.run call s = .ok report s')
    (reaches : handler = .orElse ∨ handler = .endBranch) : s.branches.length ≠ 0 := by
  cases reaches with
  | inl switches =>
    subst switches
    obtain ⟨taken, outer, found, -⟩ := Call.orElse_eq_ok_iff.mp ran
    simp [found]
  | inr closes =>
    subst closes
    obtain ⟨taken, outer, found, -⟩ := Call.endBranch_eq_ok_iff.mp ran
    simp [found]

end Behaviours

theorem Operation.nest_isSome {op : Operation} {n : Nat}
    (inside : op.opcode = Opcode.orElse ∨ op.opcode = Opcode.endIf → n ≠ 0) :
    ∃ m, op.nest n = some m := by
  unfold nest
  split
  · exact ⟨_, rfl⟩
  · split
    · next switches => exact ⟨_, if_neg (inside (.inl switches))⟩
    · split
      · next closes => exact ⟨_, if_neg (inside (.inr closes))⟩
      · exact ⟨_, rfl⟩

section Operations

variable {table : Table} {spend : Spend} {script : Script} {op : Operation} {s s' : State}
  {report : String}

/-- Whether an operation is run or skipped, it is counted, and branches are opened and closed as
its code says. -/
theorem execute_nests (structured : table.Structured)
    (ran : execute table spend script op s = .ok report s') :
    op.nest s.branches.length = some s'.branches.length ∧
      (s.count op).operations ≤ s'.operations := by
  obtain ⟨-, -, ran⟩ := execute_eq_ok_iff.mp ran
  split at ran
  · obtain ⟨-, entry, found, handled⟩ := dispatch_eq_ok_iff.mp ran
    obtain ⟨branches, operations⟩ := Handler.run_branches handled
    have inside := Handler.run_inside handled
    rw [State.count_branches] at branches inside
    have reached : op.opcode = Opcode.orElse ∨ op.opcode = Opcode.endIf →
        s.branches.length ≠ 0 := by
      rintro (switches | closes)
      · rw [switches, structured.entry?_eq (by decide), Entry.standard?_orElse] at found
        cases found
        exact inside (.inl rfl)
      · rw [closes, structured.entry?_eq (by decide), Entry.standard?_endIf] at found
        cases found
        exact inside (.inr rfl)
    obtain ⟨m, nest⟩ := Operation.nest_isSome reached
    rw [nest, branches, (structured.nest_eq found nest).1]
    exact ⟨rfl, operations⟩
  · next skipped =>
    rw [Bool.or_eq_true, not_or, Bool.not_eq_true, Bool.not_eq_true] at skipped
    rw [ran.1, Operation.nest_plain skipped.2, State.count_branches]
    exact ⟨rfl, Nat.le_refl _⟩

theorem countedAmong_cons (op : Operation) (ops : List Operation) (s : State) :
    s.operations + countedAmong (op :: ops) = (s.count op).operations + countedAmong ops := by
  unfold countedAmong State.count Opcode.isCounted
  rw [List.countP_cons]
  split <;> grind

/-- Where an operation is counted, the limit has not been reached before. -/
theorem State.operations_count_le (fits : ¬s.Exceeds op) :
    (s.count op).operations = s.operations ∨ (s.count op).operations ≤ 201 := by
  unfold Exceeds at fits
  unfold State.count
  split
  · next counted => exact .inr (Nat.le_of_not_lt fun beyond => fits ⟨counted, beyond⟩)
  · exact .inl rfl

/-- Operations that succeed one after another pass every check in any branch, open and close
branches as their codes say, and are within the limit if any of them is counted. -/
theorem executeAll_nests (structured : table.Structured) {ops : List Operation}
    (ran : executeAll table spend script ops s = .ok () s') :
    (∀ op ∈ ops, refuseAnywhere table op = .ok ()) ∧
      nesting ops s.branches.length = some s'.branches.length ∧
      (countedAmong ops = 0 ∨ s.operations + countedAmong ops ≤ 201) := by
  induction ops generalizing s with
  | nil =>
    cases ran
    exact ⟨by simp, rfl, .inl rfl⟩
  | cons op ops ih =>
    obtain ⟨report, s₁, first, second⟩ := executeAll_cons.mp ran
    obtain ⟨fits, allowed, -⟩ := execute_eq_ok_iff.mp first
    obtain ⟨nest, grown⟩ := execute_nests structured first
    obtain ⟨others, rest, few⟩ := ih second
    refine ⟨List.forall_mem_cons.mpr ⟨allowed, others⟩, ?_, ?_⟩
    · exact Option.bind_eq_some_iff.mpr ⟨_, nest, rest⟩
    · have more := countedAmong_cons op ops s
      have room := State.operations_count_le fits
      omega

end Operations

/-- **A run that succeeds proves its script well formed**, whichever branches it took: the script is
short enough and splits into operations, none of them is disabled, pushes too much or is one too
many, and every conditional is closed where it may be. -/
theorem Run.admits_of_success {table : Table} (structured : table.Structured) {script : Script}
    {spend : Spend} {state : State}
    (succeeded : (Run.start script table spend state).complete.outcome = .success) :
    script.length ≤ 10000 ∧ ∃ ops, script.operations = .ok ops ∧ table.Admits ops := by
  obtain ⟨ops, parsed, ran, closed⟩ :=
    evaluate_eq_ok_iff.mp (Run.complete_onStack_success_iff.mp ⟨succeeded, rfl⟩)
  obtain ⟨allowed, balanced, few⟩ := executeAll_nests structured ran
  unfold Run.operationsToRun at parsed
  split at parsed
  · cases parsed
  · next short =>
    refine ⟨Nat.le_of_not_lt short, ops, parsed, ?_⟩
    constructor
    case enabled => exact fun op member => (refuseAnywhere_eq_ok_iff.mp (allowed op member)).1
    case short => exact fun op member => (refuseAnywhere_eq_ok_iff.mp (allowed op member)).2
    case few => omega
    case balanced =>
      rw [closed] at balanced
      exact balanced

/-- A code that is disabled elsewhere stands in a branch that is not taken, beside another block. -/
theorem Run.admits_of_success_rebound :
    let table : Table := ⟨[⟨0x7e, "OP_CAT", .nop⟩]⟩
    let script : Script := [0x63, 0x7e, 0x64, 0x02, 0x07, 0x08, 0x68, 0x67, 0x51, 0x68]
    let state : State := { State.empty with stack := [[]] }
    table.Structured ∧ (Run.start script table ⟨none, 0, 0⟩ state).complete.outcome = .success ∧
      script.length ≤ 10000 ∧ ∃ ops, script.operations = .ok ops ∧ table.Admits ops := by
  intro table script state
  have structured : table.Structured := ⟨by decide, by decide⟩
  have succeeded : (Run.start script table ⟨none, 0, 0⟩ state).complete.outcome = .success := by
    decide +kernel
  exact ⟨structured, succeeded, Run.admits_of_success structured succeeded⟩

end LedgerScript
