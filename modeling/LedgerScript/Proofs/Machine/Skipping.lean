import LedgerScript.Proofs.Machine.WellFormed

/-!
Operations in a branch that is not taken.

The flags of the branches that the operations open themselves go on top of those around them. While
one of the outer flags is false, an inner one that is switched to true makes nothing run.
-/
namespace LedgerScript

/-- The flags of its own blocks, the innermost first, after an operation in a branch that is not
taken. -/
def Operation.skip (op : Operation) (inner : List Bool) : List Bool :=
  if op.opcode = Opcode.ifTrue ∨ op.opcode = Opcode.ifFalse then false :: inner
  else if op.opcode = Opcode.orElse then inner.modifyHead not
  else if op.opcode = Opcode.endIf then inner.tail
  else inner

namespace Operation

variable {op : Operation} {inner : List Bool} {m : Nat}

theorem length_skip (nest : op.nest inner.length = some m) : (op.skip inner).length = m := by
  unfold Operation.nest at nest
  unfold skip
  split_ifs at nest ⊢ <;> simp_all

/-- What is switched or closed is one of the blocks that the operations opened. -/
theorem exists_cons_of_nest (reaches : op.opcode = Opcode.orElse ∨ op.opcode = Opcode.endIf)
    (nest : op.nest inner.length = some m) : ∃ taken rest, inner = taken :: rest := by
  cases inner with
  | nil =>
    obtain switches | closes := reaches
    · cases (nest_orElse switches).symm.trans nest
    · cases (nest_endIf closes).symm.trans nest
  | cons taken rest => exact ⟨taken, rest, rfl⟩

theorem skip_plain (plain : Opcode.isConditional op.opcode = false) : op.skip inner = inner := by
  simp only [Opcode.isConditional, Bool.or_eq_false_iff, beq_eq_false_iff_ne] at plain
  simp [skip, plain]

theorem skip_opening {negated : Bool} (opens : op.opcode = Opcode.opening negated) :
    op.skip inner = false :: inner := by
  cases negated <;> simp [skip, opens, Opcode.opening]

theorem skip_orElse (switches : op.opcode = Opcode.orElse) :
    op.skip inner = inner.modifyHead not := by
  unfold skip
  rw [switches, if_neg (by decide), if_pos rfl]

theorem skip_endIf (closes : op.opcode = Opcode.endIf) : op.skip inner = inner.tail := by
  unfold skip
  rw [closes, if_neg (by decide), if_neg (by decide), if_pos rfl]

end Operation

/-- Nothing runs where one of the outer flags is false, whatever the inner ones are. -/
theorem State.isExecuting_of_outer {s : State} {inner outer : List Bool}
    (branches : s.branches = inner ++ outer) (skipping : outer.all id = false) :
    s.isExecuting = false := by
  rw [isExecuting, branches, List.all_append, skipping, Bool.and_false]

section Operations

variable {table : Table} {spend : Spend} {script : Script} {op : Operation} {s s' : State}
  {inner outer : List Bool} {m : Nat} {report : String}

/-- The code of a conditional is dispatched to its standard behaviour. -/
theorem dispatch_conditional_iff (structured : table.Structured)
    (conditional : Opcode.isConditional op.opcode = true) {name : String} {handler : Handler}
    (standard : Entry.standard? op.opcode = some ⟨name, handler⟩) :
    dispatch table spend script op s = .ok report s' ↔
      s'.depth ≤ Limits.stackItems ∧
        handler.run ⟨op, name, script, spend⟩ s = .ok report s' := by
  rw [dispatch_eq_ok_iff, structured.entry?_eq conditional, standard]
  simp

/-- A conditional in a branch that is not taken opens, switches or closes a block of its own. -/
theorem dispatch_skipping_iff (structured : table.Structured)
    (conditional : Opcode.isConditional op.opcode = true) (branches : s.branches = inner ++ outer)
    (skipping : outer.all id = false) (nest : op.nest inner.length = some m) :
    (∃ report, dispatch table spend script op s = .ok report s') ↔
      s.depth ≤ Limits.stackItems ∧ s' = { s with branches := op.skip inner ++ outer } := by
  have skipped : s.isExecuting = false := State.isExecuting_of_outer branches skipping
  obtain ⟨negated, opens⟩ | switches | closes := Opcode.conditional_cases conditional
  · obtain ⟨name, standard⟩ := Entry.standard?_opening negated
    simp only [dispatch_conditional_iff structured conditional (opens ▸ standard), Handler.run,
      Call.branch_eq_ok_iff, skipped, Bool.false_eq_true, ↓reduceIte]
    rw [Operation.skip_opening opens, List.cons_append, ← branches]
    constructor
    · rintro ⟨_, room, rfl, -⟩
      exact ⟨room, rfl⟩
    · rintro ⟨room, rfl⟩
      exact ⟨_, room, rfl, rfl⟩
  · obtain ⟨taken, inner, rfl⟩ := Operation.exists_cons_of_nest (.inl switches) nest
    simp only [dispatch_conditional_iff structured conditional (switches ▸ Entry.standard?_orElse),
      Handler.run, Call.orElse_eq_ok_iff, branches]
    rw [Operation.skip_orElse switches]
    constructor
    · rintro ⟨_, room, _, _, found, rfl, -⟩
      cases found
      exact ⟨room, rfl⟩
    · rintro ⟨room, rfl⟩
      exact ⟨_, room, _, _, rfl, rfl, rfl⟩
  · obtain ⟨taken, inner, rfl⟩ := Operation.exists_cons_of_nest (.inr closes) nest
    simp only [dispatch_conditional_iff structured conditional (closes ▸ Entry.standard?_endIf),
      Handler.run, Call.endBranch_eq_ok_iff, branches]
    rw [Operation.skip_endIf closes]
    constructor
    · rintro ⟨_, room, _, _, found, rfl, -⟩
      cases found
      exact ⟨room, rfl⟩
    · rintro ⟨room, rfl⟩
      exact ⟨_, room, _, _, rfl, rfl, rfl⟩

/-- **An operation passes a branch that is not taken** if it would fail in no branch, and then only
counts, and opens, switches or closes a block of its own. -/
theorem execute_skipping_iff (structured : table.Structured)
    (branches : s.branches = inner ++ outer) (skipping : outer.all id = false)
    (nest : op.nest inner.length = some m) :
    (∃ report, execute table spend script op s = .ok report s') ↔
      ¬s.Exceeds op ∧ refuseAnywhere table op = .ok () ∧
      (Opcode.isConditional op.opcode = true → s.depth ≤ Limits.stackItems) ∧
      s' = { s.count op with branches := op.skip inner ++ outer } := by
  have skipped : s.isExecuting = false := State.isExecuting_of_outer branches skipping
  have counted : (s.count op).branches = inner ++ outer := (s.count_branches op).trans branches
  simp only [execute_eq_ok_iff, skipped, Bool.false_or, exists_and_left]
  cases conditional : Opcode.isConditional op.opcode with
  | true =>
    have depth : (s.count op).depth = s.depth := by simp [State.depth]
    simp only [↓reduceIte, dispatch_skipping_iff structured conditional counted skipping nest,
      depth, forall_const]
  | false =>
    have same : { s.count op with branches := op.skip inner ++ outer } = s.count op := by
      rw [Operation.skip_plain conditional, ← counted]
    rw [same]
    simp

end Operations

/-- The flags of their own blocks after operations in a branch that is not taken. -/
def skipAll (ops : List Operation) (inner : List Bool) : List Bool :=
  ops.foldl (fun inner op => op.skip inner) inner

theorem length_skipAll {ops : List Operation} {inner : List Bool} {m : Nat}
    (nest : nesting ops inner.length = some m) : (skipAll ops inner).length = m := by
  induction ops generalizing inner with
  | nil => exact Option.some.inj nest
  | cons op ops ih =>
    obtain ⟨k, first, rest⟩ := Option.bind_eq_some_iff.mp nest
    have length : (op.skip inner).length = k := Operation.length_skip first
    exact ih (length ▸ rest)

/-- Balanced operations close every block that they open. -/
theorem skipAll_of_balanced {ops : List Operation} (balanced : Balanced ops) :
    skipAll ops [] = [] :=
  List.eq_nil_of_length_eq_zero (length_skipAll balanced)

theorem countedAmong_cons_le_iff (op : Operation) (ops : List Operation) (s : State) :
    countedAmong (op :: ops) ≤ 201 - s.operations ↔
      ¬s.Exceeds op ∧ countedAmong ops ≤ 201 - (s.count op).operations := by
  have more := countedAmong_cons op ops s
  have few : countedAmong [] = 0 := rfl
  unfold State.Exceeds
  unfold State.count at more ⊢
  by_cases counted : Opcode.isCounted op.opcode = true
  · simp only [counted, ↓reduceIte, true_and, Limits.operations] at more ⊢
    omega
  · simp only [counted, Bool.false_eq_true, ↓reduceIte, false_and, not_false_eq_true,
      true_and] at more ⊢
    omega

theorem State.count_add (s : State) (op : Operation) (ops : List Operation) (flags : List Bool) :
    { s.count op with
        operations := (s.count op).operations + countedAmong ops, branches := flags } =
      { s with operations := s.operations + countedAmong (op :: ops), branches := flags } := by
  rw [countedAmong_cons]
  unfold State.count
  split <;> rfl

section Runs

variable {table : Table} {spend : Spend} {script : Script} {ops : List Operation} {s s' : State}
  {inner outer : List Bool} {m : Nat}

/-- When operations pass such a branch one after another. Blocks may be left open or closed by them,
as long as none of these is an outer one. -/
theorem executeAll_inner_iff (structured : table.Structured)
    (branches : s.branches = inner ++ outer) (skipping : outer.all id = false)
    (nest : nesting ops inner.length = some m) :
    executeAll table spend script ops s = .ok () s' ↔
      (∀ op ∈ ops, refuseAnywhere table op = .ok () ∧
        (Opcode.isConditional op.opcode = true → s.depth ≤ Limits.stackItems)) ∧
      countedAmong ops ≤ 201 - s.operations ∧
      s' = { s with
        operations := s.operations + countedAmong ops
        branches := skipAll ops inner ++ outer } := by
  induction ops generalizing s inner with
  | nil =>
    have same : { s with
        operations := s.operations + countedAmong [], branches := inner ++ outer } = s := by
      rw [← branches]
      rfl
    constructor
    · intro run
      cases run
      exact ⟨List.forall_mem_nil _, Nat.zero_le _, same.symm⟩
    · rintro ⟨-, -, rfl⟩
      exact congrArg (EStateM.Result.ok ()) same.symm
  | cons op ops ih =>
    obtain ⟨k, first, rest⟩ := Option.bind_eq_some_iff.mp nest
    have length : (op.skip inner).length = k := Operation.length_skip first
    have branches' : ({ s.count op with branches := op.skip inner ++ outer } : State).branches =
      op.skip inner ++ outer := rfl
    have depth :
        ({ s.count op with branches := op.skip inner ++ outer } : State).depth = s.depth := by
      simp [State.depth]
    have passes : executeAll table spend script (op :: ops) s = .ok () s' ↔
        (¬s.Exceeds op ∧ refuseAnywhere table op = .ok () ∧
          (Opcode.isConditional op.opcode = true → s.depth ≤ Limits.stackItems)) ∧
        executeAll table spend script ops
          { s.count op with branches := op.skip inner ++ outer } = .ok () s' := by
      rw [executeAll_cons]
      constructor
      · rintro ⟨report, s₁, ran, others⟩
        obtain ⟨fits, allowed, room, rfl⟩ :=
          (execute_skipping_iff structured branches skipping first).mp ⟨report, ran⟩
        exact ⟨⟨fits, allowed, room⟩, others⟩
      · rintro ⟨⟨fits, allowed, room⟩, others⟩
        obtain ⟨report, ran⟩ := (execute_skipping_iff structured branches skipping first).mpr
          ⟨fits, allowed, room, rfl⟩
        exact ⟨report, _, ran, others⟩
    rw [passes, ih branches' (length ▸ rest), depth, countedAmong_cons_le_iff, List.forall_mem_cons,
      show skipAll (op :: ops) inner = skipAll ops (op.skip inner) from rfl, ← State.count_add]
    grind

/-- **Skipped code has no effect.** A balanced list of operations passes a branch that is not taken
exactly if none of them is disabled or pushes too much and no more of them are counted than are left
to the limit; all that it changes is the count. -/
theorem executeAll_skipping_iff (structured : table.Structured) (spend : Spend) (script : Script)
    (skipping : s.isExecuting = false) (room : s.depth ≤ 1000) (balanced : Balanced ops) :
    executeAll table spend script ops s = .ok () s' ↔
      (∀ op ∈ ops, Opcode.isDisabled op.opcode = true → table.isOverridden op.opcode = true) ∧
      (∀ op ∈ ops, ∀ data, op.data = some data → data.length ≤ 520) ∧
      countedAmong ops ≤ 201 - s.operations ∧
      s' = { s with operations := s.operations + countedAmong ops } := by
  have branches : s.branches = [] ++ s.branches := rfl
  rw [executeAll_inner_iff structured branches skipping balanced, skipAll_of_balanced balanced,
    List.nil_append]
  have room' : s.depth ≤ Limits.stackItems := room
  simp only [refuseAnywhere_eq_ok_iff, room', implies_true, and_true, forall_and, and_assoc]

end Runs

/-- A block with an unknown code, and with a disabled one that is bound anew in a branch whose own
flag is true; after it a push, and a block within the block. -/
def unreached : List Operation :=
  [⟨0, 1, 0x63, none⟩, ⟨1, 2, 0xba, none⟩, ⟨2, 3, 0x67, none⟩, ⟨3, 4, 0x7e, none⟩,
    ⟨4, 6, 0x01, some [7]⟩, ⟨6, 7, 0x64, none⟩, ⟨7, 8, 0x67, none⟩, ⟨8, 9, 0x68, none⟩,
    ⟨9, 10, 0x68, none⟩]

/-- Eight of these operations count, and pass where eight more may be counted. -/
theorem executeAll_skipping_iff_unreached :
    let table : Table := ⟨[⟨0x7e, "OP_CAT", .nop⟩]⟩
    let state (operations : Nat) : State := ⟨[[1]], [], [true, false], operations, 0, none⟩
    table.Structured ∧ Balanced unreached ∧
      executeAll table ⟨none, 0, 0⟩ [] unreached (state 193) = .ok () (state 201) ∧
      ∀ s', executeAll table ⟨none, 0, 0⟩ [] unreached (state 194) ≠ .ok () s' := by
  intro table state
  have structured : table.Structured := ⟨by decide, by decide⟩
  have balanced : Balanced unreached := by decide
  refine ⟨structured, balanced, ?_, ?_⟩
  · rw [executeAll_skipping_iff structured _ _ rfl (by decide) balanced]
    decide
  · intro s' run
    obtain ⟨-, -, few, -⟩ :=
      (executeAll_skipping_iff structured _ _ rfl (by decide) balanced).mp run
    exact absurd few (by decide)

end LedgerScript
