import LedgerScript.Machine.Execute

namespace LedgerScript

namespace Action

variable {α β : Type} (s : State)

theorem pure_apply (x : α) : (pure x : Action α) s = .ok x s := rfl

theorem throw_apply (e : Error) : (throw e : Action α) s = .error e s := rfl

theorem get_bind (f : State → Action β) : (get >>= f) s = f s s := rfl

theorem modify_bind (g : State → State) (f : Unit → Action β) :
    (modify g >>= f) s = f () (g s) := rfl

theorem bind_apply (m : Action α) (f : α → Action β) :
    (m >>= f) s = match m s with
      | .ok x s' => f x s'
      | .error e s' => .error e s' := by
  simp only [bind, EStateM.bind]
  cases m s <;> rfl

theorem bind_eq_ok_iff {m : Action α} {f : α → Action β} {y : β} {s s'' : State} :
    (m >>= f) s = .ok y s'' ↔ ∃ x s', m s = .ok x s' ∧ f x s' = .ok y s'' := by
  rw [bind_apply]
  cases m s with
  | ok x s' => grind
  | error e s' => simp

theorem pure_eq_ok_iff {x y : α} {s s' : State} :
    (pure x : Action α) s = .ok y s' ↔ y = x ∧ s' = s := by
  rw [pure_apply, EStateM.Result.ok.injEq]
  grind

theorem get_eq_ok_iff {x s s' : State} : (get : Action State) s = .ok x s' ↔ x = s ∧ s' = s := by
  constructor
  · intro ran
    cases ran
    exact ⟨rfl, rfl⟩
  · rintro ⟨rfl, rfl⟩
    rfl

theorem ofExcept_eq_ok_iff {e : Except Error α} {x : α} {s s' : State} :
    ofExcept e s = .ok x s' ↔ e = .ok x ∧ s' = s := by
  cases e with
  | error e => simp [ofExcept, throw_apply]
  | ok y =>
    rw [ofExcept, pure_eq_ok_iff, Except.ok.injEq]
    grind

theorem bind_of_ok {m : Action α} {f : α → Action β} {x : α} {s s' : State}
    (ran : m s = .ok x s') : (m >>= f) s = f x s' := by
  rw [bind_apply, ran]

end Action

/-- The state after an operation has been counted. -/
def State.count (s : State) (op : Operation) : State :=
  if Opcode.isCounted op.opcode then { s with operations := s.operations + 1 } else s

namespace State

variable (s : State) (op : Operation)

@[simp] theorem count_stack : (s.count op).stack = s.stack := by
  unfold count
  split <;> rfl

@[simp] theorem count_alt : (s.count op).alt = s.alt := by
  unfold count
  split <;> rfl

@[simp] theorem count_branches : (s.count op).branches = s.branches := by
  unfold count
  split <;> rfl

@[simp] theorem count_codeStart : (s.count op).codeStart = s.codeStart := by
  unfold count
  split <;> rfl

@[simp] theorem count_isExecuting : (s.count op).isExecuting = s.isExecuting := by
  simp only [isExecuting, count_branches]

end State

/-- Whether counting an operation exceeds the limit. -/
def State.Exceeds (s : State) (op : Operation) : Prop :=
  Opcode.isCounted op.opcode = true ∧ Limits.operations < s.operations + 1

instance (s : State) (op : Operation) : Decidable (s.Exceeds op) :=
  inferInstanceAs (Decidable (_ ∧ _))

theorem countOperation_eq (op : Operation) (s : State) :
    countOperation op s =
      if s.Exceeds op then .error (.script .tooManyOperations) (s.count op)
      else .ok () (s.count op) := by
  unfold countOperation State.Exceeds State.count
  by_cases counted : Opcode.isCounted op.opcode = true
  · simp only [counted, ↓reduceIte, Action.modify_bind, Action.get_bind, true_and]
    split <;> rfl
  · simp only [counted, Bool.false_eq_true, ↓reduceIte, false_and]
    rfl

theorem dispatch_eq (table : Table) (spend : Spend) (script : Script) (op : Operation) (s : State) :
    dispatch table spend script op s =
      match table.entry? op.opcode with
      | none => .error (.unknownOpcode op.opcode) s
      | some entry =>
        match entry.handler.run ⟨op, entry.name, script, spend⟩ s with
        | .error e s' => .error e s'
        | .ok report s' =>
          if Limits.stackItems < s'.depth then .error (.script (.stackTooLarge s'.depth)) s'
          else .ok report s' := by
  unfold dispatch
  cases table.entry? op.opcode with
  | none => rfl
  | some entry =>
    dsimp only
    rw [Action.bind_apply]
    cases entry.handler.run ⟨op, entry.name, script, spend⟩ s with
    | error e s' => rfl
    | ok report s' =>
      dsimp only
      rw [Action.bind_apply, checkDepth]
      by_cases large : Limits.stackItems < s'.depth
      · rw [if_pos large, if_pos large]
      · rw [if_neg large, if_neg large]
        rfl

theorem execute_eq (table : Table) (spend : Spend) (script : Script) (op : Operation) (s : State) :
    execute table spend script op s =
      if s.Exceeds op then .error (.script .tooManyOperations) (s.count op)
      else match refuseAnywhere table op with
        | .error e => .error e (s.count op)
        | .ok () =>
          if s.isExecuting || Opcode.isConditional op.opcode then
            dispatch table spend script op (s.count op)
          else .ok s!"Skipped {table.displayName op.opcode} (unexecuted branch)" (s.count op) := by
  rw [execute, Action.bind_apply, countOperation_eq]
  by_cases exceeds : s.Exceeds op
  · rw [if_pos exceeds, if_pos exceeds]
  · rw [if_neg exceeds, if_neg exceeds]
    cases refuseAnywhere table op with
    | error e => rfl
    | ok u =>
      dsimp only
      rw [Action.bind_apply, Action.ofExcept, Action.pure_apply]
      dsimp only
      rw [Action.get_bind, State.count_isExecuting]
      split <;> rfl

/-- An operation fails anywhere if its code is disabled and not bound anew, or if it pushes too
much. -/
theorem refuseAnywhere_eq_ok_iff {table : Table} {op : Operation} :
    refuseAnywhere table op = .ok () ↔
      (Opcode.isDisabled op.opcode = true → table.isOverridden op.opcode = true) ∧
        ∀ data, op.data = some data → data.length ≤ 520 := by
  unfold refuseAnywhere
  split
  · next refused =>
    rw [Bool.and_eq_true, Bool.not_eq_true'] at refused
    simp [refused]
  · next enabled =>
    have bound : Opcode.isDisabled op.opcode = true → table.isOverridden op.opcode = true := by
      simpa using enabled
    cases op.data with
    | none => exact iff_of_true rfl ⟨bound, nofun⟩
    | some data =>
      by_cases long : 520 < data.length
      · simp [Limits.itemSize, long]
      · simpa [Limits.itemSize, long] using ⟨bound, Nat.le_of_not_lt long⟩

/-- An operation succeeds if counting it stays in the limit, it is not one that fails anywhere, and
it is either run with success or stands in a branch that is not taken. -/
theorem execute_eq_ok_iff {table : Table} {spend : Spend} {script : Script} {op : Operation}
    {s s' : State} {report : String} :
    execute table spend script op s = .ok report s' ↔
      ¬s.Exceeds op ∧ refuseAnywhere table op = .ok () ∧
      if s.isExecuting || Opcode.isConditional op.opcode then
        dispatch table spend script op (s.count op) = .ok report s'
      else s' = s.count op ∧
        report = s!"Skipped {table.displayName op.opcode} (unexecuted branch)" := by
  rw [execute_eq]
  by_cases exceeds : s.Exceeds op
  · simp [exceeds]
  · cases refused : refuseAnywhere table op with
    | error e => simp [exceeds]
    | ok u =>
      simp only [exceeds, ↓reduceIte, not_false_eq_true, true_and]
      split
      · rfl
      · simp [eq_comm, and_comm]

/-- A behaviour that the table gives an operation has succeeded, and left no more items than are
allowed. -/
theorem dispatch_eq_ok_iff {table : Table} {spend : Spend} {script : Script} {op : Operation}
    {s s' : State} {report : String} :
    dispatch table spend script op s = .ok report s' ↔
      s'.depth ≤ Limits.stackItems ∧ ∃ entry, table.entry? op.opcode = some entry ∧
        entry.handler.run ⟨op, entry.name, script, spend⟩ s = .ok report s' := by
  rw [dispatch_eq]
  cases table.entry? op.opcode with
  | none => simp
  | some entry =>
    cases run : entry.handler.run ⟨op, entry.name, script, spend⟩ s with
    | error e t => simp [run]
    | ok r t =>
      by_cases large : Limits.stackItems < t.depth
      · simp only [run, large, ↓reduceIte]
        grind
      · simp only [run, large, ↓reduceIte]
        grind

/-- The behaviour that an operation is dispatched to; none where it is skipped. -/
def Table.dispatched? (table : Table) (op : Operation) (s : State) : Option Handler :=
  if s.isExecuting || Opcode.isConditional op.opcode then
    (table.entry? op.opcode).map Entry.handler
  else none

theorem Table.dispatched?_cases {table : Table} {spend : Spend} {script : Script} {op : Operation}
    {s s' : State} {report : String} (run : execute table spend script op s = .ok report s') :
    (∃ entry, table.entry? op.opcode = some entry ∧
      table.dispatched? op s = some entry.handler) ∨
    (Opcode.isConditional op.opcode = false ∧ table.dispatched? op s = none) := by
  obtain ⟨-, -, ran⟩ := execute_eq_ok_iff.mp run
  unfold dispatched?
  split at ran
  · next runs =>
    obtain ⟨-, entry, found, -⟩ := dispatch_eq_ok_iff.mp ran
    exact .inl ⟨entry, found, by rw [if_pos runs, found, Option.map_some]⟩
  · next skipped =>
    rw [if_neg skipped]
    rw [Bool.or_eq_true, not_or, Bool.not_eq_true, Bool.not_eq_true] at skipped
    exact .inr ⟨skipped.2, rfl⟩

namespace Call

variable {call : Call} {s s' : State}

theorem pop_eq_ok_iff {item : Bytes} :
    call.pop s = .ok item s' ↔ ∃ rest, s.stack = item :: rest ∧ s' = { s with stack := rest } := by
  unfold pop
  cases s.stack with
  | nil => simp
  | cons first rest =>
    simp only [EStateM.Result.ok.injEq, List.cons.injEq]
    grind

theorem pop_of_cons (call : Call) {item : Bytes} {rest : List Bytes}
    (top : s.stack = item :: rest) : call.pop s = .ok item { s with stack := rest } :=
  pop_eq_ok_iff.mpr ⟨rest, top, rfl⟩

theorem require_of_le (call : Call) {n : Nat} (enough : n ≤ s.stack.length) :
    call.require n s = .ok () s := if_neg (Nat.not_lt.mpr enough)

theorem popNumber_of_cons (call : Call) {item : Bytes} {rest : List Bytes}
    (top : s.stack = item :: rest) : call.popNumber s =
      match Script.toNumber Limits.numberSize item with
      | .ok n => .ok n { s with stack := rest }
      | .error e => .error e { s with stack := rest } := by
  rw [popNumber, Action.bind_of_ok (call.pop_of_cons top)]
  cases Script.toNumber Limits.numberSize item <;> rfl

theorem popNumber_eq_ok_iff {n : Int} :
    call.popNumber s = .ok n s' ↔ ∃ item rest, s.stack = item :: rest ∧
      Script.toNumber Limits.numberSize item = .ok n ∧ s' = { s with stack := rest } := by
  cases found : s.stack with
  | nil => simp [popNumber, Action.bind_apply, pop, found]
  | cons item rest =>
    rw [call.popNumber_of_cons found]
    cases read : Script.toNumber Limits.numberSize item with
    | error e => simp [read]
    | ok m =>
      constructor
      · rintro ⟨⟩
        exact ⟨item, rest, rfl, read, rfl⟩
      · rintro ⟨_, _, ⟨⟩, own, rfl⟩
        cases read.symm.trans own
        rfl

theorem top_eq_ok_iff {item : Bytes} :
    call.top s = .ok item s' ↔ (∃ rest, s.stack = item :: rest) ∧ s' = s := by
  unfold top
  cases s.stack with
  | nil => simp
  | cons first rest =>
    simp only [EStateM.Result.ok.injEq, List.cons.injEq]
    grind

theorem top_of_cons (call : Call) {item : Bytes} {rest : List Bytes}
    (top : s.stack = item :: rest) : call.top s = .ok item s :=
  top_eq_ok_iff.mpr ⟨⟨rest, top⟩, rfl⟩

theorem popIndex_eq (call : Call) (s : State) :
    call.popIndex s =
      match call.popNumber s with
      | .error e s' => .error e s'
      | .ok n s' =>
        match if 0 ≤ n then s'.stack[n.toNat]? else none with
        | none => .error (call.fault (.indexOutOfRange n s'.stack.length)) s'
        | some item => .ok (n.toNat, item) s' := by
  rw [popIndex, Action.bind_apply]
  cases call.popNumber s with
  | error e s' => rfl
  | ok n s' =>
    dsimp only
    rw [Action.get_bind]
    cases if 0 ≤ n then s'.stack[n.toNat]? else none <;> rfl

/-- An index that is taken off the stack finds an item in the rest of it. -/
theorem popIndex_eq_ok_iff {i : Nat} {item : Bytes} :
    call.popIndex s = .ok (i, item) s' ↔
      call.popNumber s = .ok (i : Int) s' ∧ s'.stack[i]? = some item := by
  rw [popIndex_eq]
  cases call.popNumber s with
  | error e s₁ => simp
  | ok n s₁ =>
    by_cases positive : 0 ≤ n
    · obtain ⟨k, rfl⟩ := Int.eq_ofNat_of_zero_le positive
      cases found : s₁.stack[k]? <;> simp [found] <;> grind
    · simp [positive]
      omega

theorem fromAlt_eq_ok_iff {report : String} :
    call.fromAlt s = .ok report s' ↔ ∃ item rest, s.alt = item :: rest ∧
      s' = { s with alt := rest, stack := item :: s.stack } ∧
      report = s!"Moved {showItem item} from the alt stack" := by
  unfold fromAlt
  rw [Action.get_bind]
  cases s.alt with
  | nil => simp [Action.throw_apply]
  | cons item rest =>
    constructor
    · intro run
      cases run
      exact ⟨_, _, rfl, rfl, rfl⟩
    · rintro ⟨_, _, found, rfl, rfl⟩
      cases found
      rfl

theorem branch_eq_ok_iff {negated : Bool} {report : String} :
    call.branch negated s = .ok report s' ↔
      if s.isExecuting then ∃ item rest, s.stack = item :: rest ∧
        let taken := Script.isTrue item != negated
        let word := if taken then "executing" else "skipping"
        s' = { s with stack := rest, branches := taken :: s.branches } ∧
        report = s!"{call.name}: popped {showItem item}, {word} the following branch"
      else s' = { s with branches := false :: s.branches } ∧
        report = s!"{call.name}: inside an unexecuted branch, skipping its body" := by
  unfold branch
  rw [Action.get_bind]
  cases s.isExecuting with
  | true =>
    simp only [↓reduceIte]
    rw [Action.bind_eq_ok_iff]
    constructor
    · rintro ⟨item, s₁, popped, run⟩
      obtain ⟨rest, found, rfl⟩ := pop_eq_ok_iff.mp popped
      cases run
      exact ⟨item, rest, found, rfl, rfl⟩
    · rintro ⟨item, rest, found, rfl, rfl⟩
      exact ⟨item, _, pop_eq_ok_iff.mpr ⟨rest, found, rfl⟩, rfl⟩
  | false =>
    simp only [Bool.false_eq_true, ↓reduceIte]
    constructor
    · intro run
      cases run
      exact ⟨rfl, rfl⟩
    · rintro ⟨rfl, rfl⟩
      rfl

theorem orElse_eq_ok_iff {report : String} :
    call.orElse s = .ok report s' ↔ ∃ taken outer, s.branches = taken :: outer ∧
      s' = { s with branches := (!taken) :: outer } ∧
      let word := if s'.isExecuting then "executing" else "skipping"
      report = s!"{call.name}: {word} the alternative branch" := by
  unfold orElse
  rw [Action.get_bind]
  cases s.branches with
  | nil => simp [Action.throw_apply]
  | cons taken outer =>
    constructor
    · intro run
      cases run
      exact ⟨_, _, rfl, rfl, rfl⟩
    · rintro ⟨_, _, found, rfl, rfl⟩
      cases found
      rfl

theorem endBranch_eq_ok_iff {report : String} :
    call.endBranch s = .ok report s' ↔ ∃ taken outer, s.branches = taken :: outer ∧
      s' = { s with branches := outer } ∧ report = s!"{call.name}: closed conditional block" := by
  unfold endBranch
  rw [Action.get_bind]
  cases s.branches with
  | nil => simp [fail, Action.throw_apply]
  | cons taken outer =>
    constructor
    · intro run
      cases run
      exact ⟨_, _, rfl, rfl, rfl⟩
    · rintro ⟨_, _, found, rfl, rfl⟩
      cases found
      rfl

theorem countKeys_eq (call : Call) (keys : Nat) (s : State) :
    call.countKeys keys s =
      if Limits.operations < s.operations + keys then
        .error (call.fault .tooManyOperations) { s with operations := s.operations + keys }
      else .ok () { s with operations := s.operations + keys } := by
  unfold countKeys
  rw [Action.modify_bind, Action.get_bind]
  split <;> rfl

end Call

/-- Runs operations one after another. -/
def executeAll (table : Table) (spend : Spend) (script : Script) : List Operation → Action Unit
  | [] => pure ()
  | op :: ops => do
    let _ ← execute table spend script op
    executeAll table spend script ops

theorem executeAll_cons {table : Table} {spend : Spend} {script : Script} {op : Operation}
    {ops : List Operation} {s s'' : State} :
    executeAll table spend script (op :: ops) s = .ok () s'' ↔ ∃ report s',
      execute table spend script op s = .ok report s' ∧
        executeAll table spend script ops s' = .ok () s'' :=
  Action.bind_eq_ok_iff

theorem executeAll_append {table : Table} {spend : Spend} {script : Script}
    {ops ops' : List Operation} {s s'' : State} :
    executeAll table spend script (ops ++ ops') s = .ok () s'' ↔ ∃ s',
      executeAll table spend script ops s = .ok () s' ∧
        executeAll table spend script ops' s' = .ok () s'' := by
  induction ops generalizing s with
  | nil =>
    constructor
    · exact fun run => ⟨s, rfl, run⟩
    · rintro ⟨s', run, rest⟩
      cases run
      exact rest
  | cons op ops ih =>
    simp only [List.cons_append, executeAll_cons, ih]
    grind

end LedgerScript
