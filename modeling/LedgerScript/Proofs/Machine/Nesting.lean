import LedgerScript.Proofs.Machine.Overlay
import LedgerScript.Proofs.Machine.Transfer

namespace LedgerScript

/-- The code that opens a block, taken on a true item or, if negated, on a false one. -/
def Opcode.opening (negated : Bool) : UInt8 := if negated then ifFalse else ifTrue

/-- How many blocks are open after an operation where so many are open before; nothing if it would
switch or close a block around them. -/
def Operation.nest (op : Operation) (n : Nat) : Option Nat :=
  if op.opcode = Opcode.ifTrue ∨ op.opcode = Opcode.ifFalse then some (n + 1)
  else if op.opcode = Opcode.orElse then if n = 0 then none else some n
  else if op.opcode = Opcode.endIf then if n = 0 then none else some (n - 1)
  else some n

def nesting (ops : List Operation) (n : Nat) : Option Nat := ops.foldlM (fun n op => op.nest n) n

/-- Every block is closed, and none around them is switched or closed. -/
def Balanced (ops : List Operation) : Prop := nesting ops 0 = some 0

instance (ops : List Operation) : Decidable (Balanced ops) := inferInstanceAs (Decidable (_ = _))

/-- The codes of conditionals keep their behaviours, and no other code has one of these. -/
structure Table.Structured (table : Table) : Prop where
  kept : ∀ o ∈ table.overrides, Opcode.isConditional o.value = false
  plain : ∀ o ∈ table.overrides, o.handler.isConditional = false

theorem Opcode.conditional_cases {opcode : UInt8} (h : isConditional opcode = true) :
    (∃ negated, opcode = opening negated) ∨ opcode = orElse ∨ opcode = endIf := by
  simp only [isConditional, Bool.or_eq_true, beq_iff_eq, or_assoc] at h
  obtain opens | opens | switches | closes := h
  · exact .inl ⟨false, opens⟩
  · exact .inl ⟨true, opens⟩
  · exact .inr (.inl switches)
  · exact .inr (.inr closes)

theorem Opcode.isConditional_opening (negated : Bool) : isConditional (opening negated) = true := by
  cases negated <;> rfl

theorem Entry.standard?_opening (negated : Bool) :
    ∃ name, Entry.standard? (Opcode.opening negated) = some ⟨name, .branch negated⟩ := by
  cases negated <;> exact ⟨_, rfl⟩

theorem Entry.standard?_orElse :
    Entry.standard? Opcode.orElse = some ⟨"OP_ELSE", .orElse⟩ := rfl

theorem Entry.standard?_endIf :
    Entry.standard? Opcode.endIf = some ⟨"OP_ENDIF", .endBranch⟩ := rfl

section Nest

variable {op : Operation} {n : Nat}

theorem Operation.nest_opening {negated : Bool} (opens : op.opcode = Opcode.opening negated) :
    op.nest n = some (n + 1) := by
  unfold nest
  cases negated with
  | false => exact if_pos (.inl opens)
  | true => exact if_pos (.inr opens)

theorem Operation.nest_orElse (switches : op.opcode = Opcode.orElse) :
    op.nest n = if n = 0 then none else some n := by
  unfold nest
  rw [switches, if_neg (by decide), if_pos rfl]

theorem Operation.nest_endIf (closes : op.opcode = Opcode.endIf) :
    op.nest n = if n = 0 then none else some (n - 1) := by
  unfold nest
  rw [closes, if_neg (by decide), if_neg (by decide), if_pos rfl]

theorem Operation.nest_plain (plain : Opcode.isConditional op.opcode = false) :
    op.nest n = some n := by
  simp only [Opcode.isConditional, Bool.or_eq_false_iff, beq_eq_false_iff_ne] at plain
  obtain ⟨⟨⟨notIf, notNotIf⟩, notElse⟩, notEndIf⟩ := plain
  simp [nest, notIf, notNotIf, notElse, notEndIf]

end Nest

theorem Handler.isConditional_standard {opcode : UInt8} {handler : Handler}
    (h : Handler.standard? opcode = some handler) :
    handler.isConditional = Opcode.isConditional opcode := by
  have each : ∀ v,
      (Handler.standard? v).all (·.isConditional == Opcode.isConditional v) = true := by
    apply Bytes.forall_byte
    decide +kernel
  have agrees := each opcode
  rw [h, Option.all_some] at agrees
  exact eq_of_beq agrees

theorem Handler.nest_of_plain {handler : Handler} (plain : handler.isConditional = false)
    (n : Nat) : handler.nest n = n := by
  cases handler with
  | branch negated => cases plain
  | endBranch => cases plain
  | _ => rfl

namespace Table.Structured

variable {table : Table}

theorem entry?_eq (structured : table.Structured) {opcode : UInt8}
    (conditional : Opcode.isConditional opcode = true) :
    table.entry? opcode = Entry.standard? opcode := by
  unfold entry?
  cases found : table.override? opcode with
  | none => rfl
  | some o =>
    obtain ⟨member, rfl⟩ := Table.override?_mem found
    rw [structured.kept o member] at conditional
    cases conditional

theorem isConditional_handler (structured : table.Structured) {opcode : UInt8} {entry : Entry}
    (h : table.entry? opcode = some entry) :
    entry.handler.isConditional = Opcode.isConditional opcode := by
  unfold entry? at h
  cases found : table.override? opcode with
  | none =>
    simp only [found, Entry.standard?, Option.map_eq_some_iff] at h
    obtain ⟨handler, standard, rfl⟩ := h
    exact Handler.isConditional_standard standard
  | some o =>
    obtain ⟨member, rfl⟩ := Table.override?_mem found
    simp only [found, Option.some.injEq] at h
    subst h
    rw [structured.kept o member]
    exact structured.plain o member

/-- The nesting that is read off the codes is that of the behaviours they are dispatched to. -/
theorem nest_eq (structured : table.Structured) {op : Operation} {entry : Entry} {n m : Nat}
    (found : table.entry? op.opcode = some entry) (nest : op.nest n = some m) :
    entry.handler.nest n = m ∧
      (entry.handler = .orElse ∨ entry.handler = .endBranch → n ≠ 0) := by
  cases conditional : Opcode.isConditional op.opcode with
  | true =>
    rw [structured.entry?_eq conditional] at found
    obtain ⟨negated, opens⟩ | switches | closes := Opcode.conditional_cases conditional
    · obtain ⟨name, standard⟩ := Entry.standard?_opening negated
      rw [opens, standard] at found
      cases found
      rw [Operation.nest_opening opens] at nest
      exact ⟨Option.some.inj nest, by simp⟩
    · rw [switches, Entry.standard?_orElse] at found
      cases found
      rw [Operation.nest_orElse switches] at nest
      split at nest
      · cases nest
      · next inside => exact ⟨Option.some.inj nest, fun _ => inside⟩
    · rw [closes, Entry.standard?_endIf] at found
      cases found
      rw [Operation.nest_endIf closes] at nest
      split at nest
      · cases nest
      · next inside => exact ⟨Option.some.inj nest, fun _ => inside⟩
  | false =>
    have plain := (structured.isConditional_handler found).trans conditional
    rw [Operation.nest_plain conditional] at nest
    refine ⟨(Handler.nest_of_plain plain n).trans (Option.some.inj nest), ?_⟩
    rintro (same | same) <;> rw [same] at plain <;> cases plain

end Table.Structured

end LedgerScript
