import LedgerScript.Proofs.Machine.Skipping

/-!
Conditionals mean what they say.

A flat list of branches stands for the nesting of blocks. A balanced list of operations in a branch
that is not taken does nothing, and in one that is taken does what it does on its own.
-/
namespace LedgerScript

/-- The second state differs from the first in its branches and in what it has counted since. -/
structure State.Unmoved (s s' : State) : Prop where
  stack : s'.stack = s.stack
  alt : s'.alt = s.alt
  codeStart : s'.codeStart = s.codeStart
  error : s'.error = s.error
  operations : s.operations ≤ s'.operations

namespace State

theorem Unmoved.refl (s : State) : s.Unmoved s := ⟨rfl, rfl, rfl, rfl, Nat.le_refl _⟩

theorem Unmoved.trans {s s' s'' : State} (first : s.Unmoved s') (second : s'.Unmoved s'') :
    s.Unmoved s'' :=
  ⟨second.stack.trans first.stack, second.alt.trans first.alt,
    second.codeStart.trans first.codeStart, second.error.trans first.error,
    Nat.le_trans first.operations second.operations⟩

theorem unmoved_count (s : State) (op : Operation) : s.Unmoved (s.count op) := by
  unfold count
  split
  · exact ⟨rfl, rfl, rfl, rfl, Nat.le_succ _⟩
  · exact Unmoved.refl s

theorem Unmoved.withBranches {s s' : State} (h : s.Unmoved s') (branches : List Bool) :
    s.Unmoved { s' with branches := branches } := { h with }

end State

/-- A balanced list of operations leaves the branch that it stands in as it was. -/
theorem executeAll_untaken {table : Table} (structured : table.Structured) {spend : Spend}
    {script : Script} {ops : List Operation} (balanced : Balanced ops) {s s' : State}
    {outer : List Bool} (inBranch : s.branches = false :: outer)
    (run : executeAll table spend script ops s = .ok () s') :
    s.Unmoved s' ∧ s'.branches = false :: outer := by
  have branches : s.branches = [] ++ false :: outer := inBranch
  obtain ⟨-, -, rfl⟩ := (executeAll_inner_iff structured branches rfl balanced).mp run
  rw [skipAll_of_balanced balanced, List.nil_append]
  exact ⟨⟨rfl, rfl, rfl, rfl, Nat.le_add_right _ _⟩, rfl⟩

theorem execute_nested {table : Table} (structured : table.Structured) {spend : Spend}
    {script : Script} {op : Operation} {d : Difference} {n m : Nat} {s s' t : State}
    {report : String} (shallow : d.below = []) (h : s.Alike d n t) (nest : op.nest n = some m)
    (run : execute table spend script op s = .ok report s') :
    ∃ t', execute table spend script op t = .ok report t' ∧ s'.Alike d m t' := by
  have room (bound : s'.depth ≤ Limits.stackItems) :
      d.below.length + s'.depth ≤ Limits.stackItems := by
    rw [shallow, List.length_nil, Nat.zero_add]
    exact bound
  obtain ⟨entry, found, dispatched⟩ | ⟨plain, skipped⟩ := Table.dispatched?_cases run
  · obtain ⟨same, inside⟩ := structured.nest_eq found nest
    have transferred := execute_transfers h run (fun _ => shallow) ?_ room
    · rw [dispatched, Option.elim_some, same] at transferred
      exact transferred
    · simp only [dispatched, Option.some.injEq]
      exact fun switches outermost => absurd outermost (inside switches)
  · -- what is skipped is no conditional, and opens and closes nothing
    have transferred := execute_transfers h run (fun _ => shallow) (by simp [skipped]) room
    rw [Operation.nest_plain plain, Option.some.injEq] at nest
    rw [skipped, Option.elim_none, nest] at transferred
    exact transferred

/-- Operations that succeed in a state succeed in every state alike to it without items below. -/
theorem executeAll_transfers {table : Table} (structured : table.Structured) {spend : Spend}
    {script : Script} {ops : List Operation} {d : Difference} {n m : Nat} {s s' t : State}
    (shallow : d.below = []) (h : s.Alike d n t) (nest : nesting ops n = some m)
    (run : executeAll table spend script ops s = .ok () s') :
    ∃ t', executeAll table spend script ops t = .ok () t' ∧ s'.Alike d m t' := by
  induction ops generalizing s t n with
  | nil =>
    cases run
    cases nest
    exact ⟨t, rfl, h⟩
  | cons op ops ih =>
    obtain ⟨report, s₁, first, second⟩ := executeAll_cons.mp run
    obtain ⟨k, nestFirst, nestSecond⟩ := Option.bind_eq_some_iff.mp nest
    obtain ⟨t₁, firstT, alike⟩ := execute_nested structured shallow h nestFirst first
    obtain ⟨t', secondT, rest⟩ := ih alike nestSecond second
    exact ⟨t', executeAll_cons.mpr ⟨report, t₁, firstT, secondT⟩, rest⟩

/-- How a state in a taken branch differs from one that is not in it. -/
def Difference.taken (counted : Nat) (outer : List Bool) : Difference :=
  ⟨[], counted, true :: outer, outer, rfl⟩

theorem State.Unmoved.alike {s s' : State} (h : s.Unmoved s')
    (inBranch : s'.branches = true :: s.branches) :
    s'.Alike (.taken (s'.operations - s.operations) s.branches) 0 s :=
  { stack := h.stack ▸ (List.append_nil _).symm
    alt := h.alt.symm
    operations := (Nat.add_sub_cancel' h.operations).symm
    codeStart := h.codeStart.symm
    error := h.error.symm
    branches := ⟨[], rfl, inBranch, rfl⟩ }

/-- **Operations in a branch that is taken do what they do on their own.** -/
theorem executeAll_taken {table : Table} (structured : table.Structured) {spend : Spend}
    {script : Script} {ops : List Operation} (balanced : Balanced ops) {s s₁ s₂ : State}
    (unmoved : s.Unmoved s₁) (inBranch : s₁.branches = true :: s.branches)
    (run : executeAll table spend script ops s₁ = .ok () s₂) :
    ∃ u, executeAll table spend script ops s = .ok () u ∧ u.Unmoved s₂ ∧
      u.branches = s.branches ∧ s₂.branches = true :: s.branches := by
  obtain ⟨u, alone, alike⟩ :=
    executeAll_transfers structured rfl (unmoved.alike inBranch) balanced run
  obtain ⟨inner, closed, within, outside⟩ := alike.branches
  -- a balanced list closes what it opens, so the two are back in their outer branches
  rw [List.eq_nil_of_length_eq_zero closed] at within outside
  have stack : u.stack = s₂.stack := alike.stack.trans (List.append_nil _)
  exact ⟨u, alone, ⟨stack.symm, alike.alt.symm, alike.codeStart.symm, alike.error.symm,
    alike.operations ▸ Nat.le_add_right _ _⟩, outside, within⟩

section Codes

variable {table : Table} {spend : Spend} {script : Script} {op : Operation} {s s' : State}
  {report : String}

theorem execute_conditional (structured : table.Structured) {name : String} {handler : Handler}
    (conditional : Opcode.isConditional op.opcode = true)
    (standard : Entry.standard? op.opcode = some ⟨name, handler⟩)
    (run : execute table spend script op s = .ok report s') :
    handler.run ⟨op, name, script, spend⟩ (s.count op) = .ok report s' := by
  obtain ⟨-, -, ran⟩ := execute_eq_ok_iff.mp run
  rw [conditional, Bool.or_true, if_pos rfl] at ran
  obtain ⟨-, entry, found, handled⟩ := dispatch_eq_ok_iff.mp ran
  rw [structured.entry?_eq conditional, standard] at found
  cases found
  exact handled

theorem execute_opening (structured : table.Structured) {negated : Bool}
    (opens : op.opcode = Opcode.opening negated) (executing : s.isExecuting = true)
    (run : execute table spend script op s = .ok report s') :
    ∃ item rest, s.stack = item :: rest ∧ s' = { s.count op with
      stack := rest, branches := (Script.isTrue item != negated) :: s.branches } := by
  obtain ⟨name, standard⟩ := Entry.standard?_opening negated
  have conditional : Opcode.isConditional op.opcode = true :=
    opens ▸ Opcode.isConditional_opening negated
  have branched := execute_conditional structured conditional (opens ▸ standard) run
  have opened := Call.branch_eq_ok_iff.mp branched
  simp only [State.count_isExecuting, executing, ↓reduceIte, State.count_stack,
    State.count_branches] at opened
  obtain ⟨item, rest, found, same, -⟩ := opened
  exact ⟨item, rest, found, same⟩

theorem execute_orElse (structured : table.Structured) (switches : op.opcode = Opcode.orElse)
    {taken : Bool} {outer : List Bool} (inBranch : s.branches = taken :: outer)
    (run : execute table spend script op s = .ok report s') :
    s.Unmoved s' ∧ s'.branches = (!taken) :: outer := by
  have switched := execute_conditional structured (switches ▸ rfl)
    (switches ▸ Entry.standard?_orElse) run
  obtain ⟨first, rest, found, same, -⟩ := Call.orElse_eq_ok_iff.mp switched
  rw [State.count_branches, inBranch, List.cons.injEq] at found
  rw [same, ← found.1, ← found.2]
  exact ⟨(s.unmoved_count op).withBranches _, rfl⟩

theorem execute_endIf (structured : table.Structured) (closes : op.opcode = Opcode.endIf)
    {taken : Bool} {outer : List Bool} (inBranch : s.branches = taken :: outer)
    (run : execute table spend script op s = .ok report s') :
    s.Unmoved s' ∧ s'.branches = outer := by
  have closed := execute_conditional structured (closes ▸ rfl)
    (closes ▸ Entry.standard?_endIf) run
  obtain ⟨first, rest, found, same, -⟩ := Call.endBranch_eq_ok_iff.mp closed
  rw [State.count_branches, inBranch, List.cons.injEq] at found
  rw [same, ← found.2]
  exact ⟨(s.unmoved_count op).withBranches _, rfl⟩

end Codes

/-- **A conditional does what the branch that is taken does.** If all of it succeeds where the top
item is on the stack, then so does that branch on its own where the item has been taken off, and
both leave the same stacks, branches and start of the code. -/
theorem executeAll_conditional {table : Table} (structured : table.Structured) (spend : Spend)
    (script : Script) {opener switch closer : Operation} {negated : Bool}
    (opens : opener.opcode = if negated then Opcode.ifFalse else Opcode.ifTrue)
    (switches : switch.opcode = Opcode.orElse) (closes : closer.opcode = Opcode.endIf)
    {first second : List Operation} (balanced : Balanced first) (balanced' : Balanced second)
    {s s' : State} {item : Bytes} {rest : List Bytes} (executing : s.isExecuting = true)
    (top : s.stack = item :: rest)
    (run : executeAll table spend script (opener :: first ++ switch :: second ++ [closer]) s =
      .ok () s') :
    ∃ u, executeAll table spend script (if Script.isTrue item != negated then first else second)
        { s with stack := rest } = .ok () u ∧
      u.stack = s'.stack ∧ u.alt = s'.alt ∧ u.branches = s'.branches ∧
      u.codeStart = s'.codeStart := by
  obtain ⟨s₄, run, last⟩ := executeAll_append.mp run
  obtain ⟨s₂, run, later⟩ := executeAll_append.mp run
  obtain ⟨_, s₁, opened, firstRun⟩ := executeAll_cons.mp run
  obtain ⟨_, s₃, switched, secondRun⟩ := executeAll_cons.mp later
  obtain ⟨_, s₅, closed, done⟩ := executeAll_cons.mp last
  cases done
  obtain ⟨other, below, found, rfl⟩ := execute_opening structured opens executing opened
  rw [top] at found
  cases found
  have begun : State.Unmoved { s with stack := rest } { s.count opener with
      stack := rest, branches := (Script.isTrue item != negated) :: s.branches } :=
    { s.unmoved_count opener with stack := rfl }
  cases taken : Script.isTrue item != negated with
  | true =>
    rw [taken] at begun firstRun
    obtain ⟨u, alone, ran, outside, within⟩ :=
      executeAll_taken structured balanced begun rfl firstRun
    obtain ⟨turned, inBranch⟩ := execute_orElse structured switches within switched
    obtain ⟨skipped, inBranch'⟩ := executeAll_untaken structured balanced' inBranch secondRun
    obtain ⟨ended, outside'⟩ := execute_endIf structured closes inBranch' closed
    have same := ((ran.trans turned).trans skipped).trans ended
    exact ⟨u, alone, same.stack.symm, same.alt.symm, outside.trans outside'.symm,
      same.codeStart.symm⟩
  | false =>
    rw [taken] at begun firstRun
    obtain ⟨skipped, inBranch⟩ := executeAll_untaken structured balanced rfl firstRun
    obtain ⟨turned, inBranch'⟩ := execute_orElse structured switches inBranch switched
    obtain ⟨u, alone, ran, outside, within⟩ := executeAll_taken structured balanced'
      ((begun.trans skipped).trans turned) inBranch' secondRun
    obtain ⟨ended, outside'⟩ := execute_endIf structured closes within closed
    have same := ran.trans ended
    exact ⟨u, alone, same.stack.symm, same.alt.symm, outside.trans outside'.symm,
      same.codeStart.symm⟩

/-- An operation that carries no data. -/
def Operation.ofCode (opcode : UInt8) : Operation := ⟨0, 0, opcode, none⟩

/-- A block within a negated conditional, next to a branch with a code that is bound anew. -/
theorem executeAll_conditional_nested :
    executeAll ⟨[⟨0xb0, "OP_TWICE", .move .dup⟩]⟩ ⟨none, 0, 0⟩ []
        (.ofCode 0x64 :: [0x51, 0x63, 0x58, 0x67, 0x59, 0x68].map .ofCode ++
          .ofCode 0x67 :: [.ofCode 0xb0] ++ [.ofCode 0x68])
        { State.empty with stack := [[], [7]] } =
        .ok () { State.empty with stack := [[8], [7]], operations := 7 } ∧
      ∃ u, executeAll ⟨[⟨0xb0, "OP_TWICE", .move .dup⟩]⟩ ⟨none, 0, 0⟩ []
          ([0x51, 0x63, 0x58, 0x67, 0x59, 0x68].map .ofCode)
          { State.empty with stack := [[7]] } = .ok () u ∧
        u.stack = [[8], [7]] ∧ u.alt = [] ∧ u.branches = [] ∧ u.codeStart = 0 := by
  have structured : Table.Structured ⟨[⟨0xb0, "OP_TWICE", .move .dup⟩]⟩ :=
    ⟨by decide, by decide⟩
  have first : Balanced ([0x51, 0x63, 0x58, 0x67, 0x59, 0x68].map .ofCode) := by decide
  have second : Balanced [.ofCode 0xb0] := by decide
  have run : executeAll ⟨[⟨0xb0, "OP_TWICE", .move .dup⟩]⟩ ⟨none, 0, 0⟩ []
      (.ofCode 0x64 :: [0x51, 0x63, 0x58, 0x67, 0x59, 0x68].map .ofCode ++
        .ofCode 0x67 :: [.ofCode 0xb0] ++ [.ofCode 0x68])
      { State.empty with stack := [[], [7]] } =
      .ok () { State.empty with stack := [[8], [7]], operations := 7 } := by rfl
  have opens : (Operation.ofCode 0x64).opcode =
    if true then Opcode.ifFalse else Opcode.ifTrue := rfl
  refine ⟨run, ?_⟩
  exact executeAll_conditional structured ⟨none, 0, 0⟩ [] opens rfl rfl first second rfl rfl run

end LedgerScript
