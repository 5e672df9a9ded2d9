import LedgerScript.Proofs.Script.Parts

namespace LedgerScript.Script

/-- Each of the parts is the bytes of one operation. -/
def Spelled (parts : List Bytes) : Prop := ∀ part ∈ parts, ∃ opcode data, Spells part opcode data

theorem Spells.length_pos {part : Bytes} {opcode : UInt8} {data : Option Bytes}
    (h : Spells part opcode data) : 0 < part.length := by
  cases h <;> exact Nat.succ_pos _

theorem Spelled.parts {parts : List Bytes} (spelled : Spelled parts) (offset : Nat) :
    ∃ ops, Parts offset parts ops := by
  have each : List.Forall₂ (fun _ part => ∃ opcode data, Spells part opcode data ∧
      ∀ _ _ : Nat, True) parts parts := by
    rw [List.forall₂_same]
    intro part member
    obtain ⟨opcode, data, spells⟩ := spelled part member
    exact ⟨opcode, data, spells, fun _ _ => trivial⟩
  obtain ⟨ops, placed, -⟩ := exists_parts (r := fun _ _ => True) each offset
  exact ⟨ops, placed⟩

theorem Parts.spelled {offset : Nat} {parts : List Bytes} {ops : List Operation}
    (h : Parts offset parts ops) : Spelled parts := by
  induction h with
  | nil => exact List.forall_mem_nil _
  | cons head _ ih => exact List.forall_mem_cons.mpr ⟨⟨_, _, head⟩, ih⟩

theorem Spelled.filter {parts : List Bytes} (spelled : Spelled parts) (keep : Bytes → Bool) :
    Spelled (parts.filter keep) := fun part member => spelled part (List.mem_of_mem_filter member)

/-- The empty pattern is no operation, so that nothing is taken out for it. -/
theorem Spelled.findAndDelete {parts : List Bytes} (spelled : Spelled parts) (pattern : Bytes) :
    Script.findAndDelete parts.flatten pattern = .ok (parts.filter (· ≠ pattern)).flatten := by
  by_cases empty : pattern = []
  · have all : parts.filter (· ≠ pattern) = parts := by
      rw [List.filter_eq_self]
      intro part member
      obtain ⟨opcode, data, spells⟩ := spelled part member
      rw [empty, decide_eq_true_eq]
      exact List.ne_nil_of_length_pos spells.length_pos
    rw [all, Script.findAndDelete, if_pos empty]
  · obtain ⟨ops, placed⟩ := spelled.parts 0
    exact placed.findAndDelete empty

/-- Nothing fails to be taken out of a script that splits into operations. -/
theorem exists_findAndDelete {script : Script} {ops : List Operation}
    (split : operations script = .ok ops) (pattern : Bytes) :
    ∃ code, Script.findAndDelete script pattern = .ok code := by
  unfold Script.findAndDelete
  split
  · exact ⟨script, rfl⟩
  · rw [split]
    exact ⟨_, rfl⟩

theorem payload_error {opcode : UInt8} {rest : Bytes} {e : Error}
    (failed : payload opcode rest = .error e) :
    ∃ needed remaining, e = .truncated needed remaining := by
  unfold payload at failed
  cases width : lengthWidth? opcode with
  | none =>
    rw [width] at failed
    cases failed
  | some w =>
    simp only [width] at failed
    split_ifs at failed <;> cases failed <;> exact ⟨_, _, rfl⟩

theorem operationsFrom_error {offset skip : Nat} {script : Script} {e : Error}
    (failed : operationsFrom offset skip script = .error e) :
    ∃ needed remaining, e = .truncated needed remaining := by
  induction script generalizing offset skip with
  | nil => cases failed
  | cons opcode rest ih =>
    cases skip with
    | succ skip => exact ih failed
    | zero =>
      unfold operationsFrom at failed
      cases head : payload opcode rest with
      | error e' =>
        rw [head] at failed
        cases failed
        exact payload_error head
      | ok p =>
        rw [head] at failed
        exact ih (Fallible.map_eq_error_iff.mp failed)

/-- **Something fails to be taken out of a script only where bytes end too early.** -/
theorem findAndDelete_error {script : Script} {pattern : Bytes} {e : Error}
    (failed : Script.findAndDelete script pattern = .error e) :
    ∃ needed remaining, e = .truncated needed remaining := by
  unfold Script.findAndDelete at failed
  split at failed
  · cases failed
  · obtain unread | ⟨ops, -, failed⟩ := Fallible.bind_eq_error_iff.mp failed
    · exact operationsFrom_error unread
    · cases failed

/-- Pushes are taken out of a script one after another. -/
theorem Spelled.deletePushes {parts : List Bytes} (spelled : Spelled parts)
    (items : List Bytes) :
    items.foldlM (fun code item => Script.findAndDelete code (push item)) parts.flatten =
      .ok (parts.filter (· ∉ items.map push)).flatten := by
  induction items generalizing parts with
  | nil => simp [pure, Except.pure]
  | cons item items ih =>
    rw [List.foldlM_cons, spelled.findAndDelete (push item)]
    show items.foldlM _ _ = _
    rw [ih (spelled.filter _), List.filter_filter]
    congr 3
    funext part
    simp [Bool.and_comm]

/-- The beginning of a script and the places where an operation of it ends. -/
def Boundary (ops : List Operation) (start : Nat) : Prop :=
  start = 0 ∨ ∃ op ∈ ops, op.stop = start

/-- Operations lie after the place they are counted from. -/
theorem Parts.le_offset {offset : Nat} {parts : List Bytes} {ops : List Operation}
    (h : Parts offset parts ops) : ∀ op ∈ ops, offset ≤ op.offset ∧ op.offset < op.stop := by
  induction h with
  | nil => exact List.forall_mem_nil _
  | cons head _ ih =>
    have length := head.length_pos
    refine List.forall_mem_cons.mpr ⟨⟨Nat.le_refl _, Nat.lt_add_of_pos_right length⟩, ?_⟩
    intro op member
    have := ih op member
    omega

/-- From a boundary on the script is made up of the operations that do not begin before it. -/
theorem Parts.drop_of_boundary {offset : Nat} {parts : List Bytes} {ops : List Operation}
    (h : Parts offset parts ops) (before : Bytes) (place : before.length = offset) {start : Nat}
    (boundary : start = offset ∨ ∃ op ∈ ops, op.stop = start) :
    (before ++ parts.flatten).drop start =
      ((ops.filter (start ≤ ·.offset)).map (slice (before ++ parts.flatten))).flatten := by
  induction h generalizing before with
  | nil =>
    obtain rfl | ⟨op, member, -⟩ := boundary
    · simp [← place]
    · cases member
  | @cons offset part opcode data parts ops head tail ih =>
    by_cases first : start = offset
    · subst first
      have whole :
          Parts start (part :: parts) (⟨start, start + part.length, opcode, data⟩ :: ops) :=
        .cons head tail
      have all : (_ :: ops).filter (start ≤ ·.offset) = _ :: ops :=
        List.filter_eq_self.mpr fun op member => decide_eq_true (whole.le_offset op member).1
      rw [all, whole.map_slice before place, ← place, List.drop_left]
    · -- the first operation begins before the boundary, so the rest of them decide
      have later : start = offset + part.length ∨ ∃ op ∈ ops, op.stop = start := by
        obtain same | ⟨op, member, ends⟩ := boundary
        · exact absurd same first
        · cases List.mem_cons.mp member with
          | inl same => exact .inl (by rw [← ends, same])
          | inr other => exact .inr ⟨op, other, ends⟩
      have beyond : offset < start := by
        have length := head.length_pos
        obtain rfl | ⟨op, member, rfl⟩ := later
        · omega
        · have := tail.le_offset op member
          omega
      have rest := ih (before ++ part) (by rw [List.length_append, place]) later
      rw [List.append_assoc] at rest
      rw [List.flatten_cons, rest, List.filter_cons_of_neg (by simpa using beyond)]

theorem drop_of_boundary {script : Script} {ops : List Operation}
    (split : operations script = .ok ops) {start : Nat} (boundary : Boundary ops start) :
    script.drop start = ((ops.filter (start ≤ ·.offset)).map (slice script)).flatten := by
  obtain ⟨parts, rfl, placed⟩ := operationsFrom_eq_ok_iff.mp split
  exact placed.drop_of_boundary [] rfl boundary

/-- The operations that lie after a separator, or all of them if there is none, without those that
push one of the signatures in the shortest form. -/
def covered (script : Script) (ops : List Operation) (separator : Option Operation)
    (signatures : List Bytes) : Script :=
  (((ops.filter (separator.elim 0 Operation.stop ≤ ·.offset)).map (slice script)).filter
    (· ∉ signatures.map push)).flatten

theorem boundary_of_separator {ops : List Operation} {separator : Option Operation}
    (member : ∀ op ∈ separator, op ∈ ops) : Boundary ops (separator.elim 0 Operation.stop) := by
  cases separator with
  | none => exact .inl rfl
  | some op => exact .inr ⟨op, member op rfl, rfl⟩

theorem spelled_slices {script : Script} {ops : List Operation}
    (split : operations script = .ok ops) (keep : Operation → Bool) :
    Spelled ((ops.filter keep).map (slice script)) := by
  intro part member
  obtain ⟨op, kept, rfl⟩ := List.mem_map.mp member
  exact ⟨_, _, spells_slice split op (List.mem_of_mem_filter kept)⟩

/-- **The covered part of a script** is what is left when the pushes of the signatures are taken out
of the bytes after the separator. -/
theorem deletePushes_eq_covered {script : Script} {ops : List Operation}
    (split : operations script = .ok ops) {separator : Option Operation}
    (member : ∀ op ∈ separator, op ∈ ops) (signatures : List Bytes) :
    signatures.foldlM (fun code item => findAndDelete code (push item))
        (script.drop (separator.elim 0 Operation.stop)) =
      .ok (script.covered ops separator signatures) := by
  rw [drop_of_boundary split (boundary_of_separator member)]
  exact (spelled_slices split _).deletePushes signatures

/-- The covered part splits into operations again. -/
theorem operations_covered {script : Script} {ops : List Operation}
    (split : operations script = .ok ops) (separator : Option Operation)
    (signatures : List Bytes) :
    ∃ others, operations (script.covered ops separator signatures) = .ok others := by
  have spelled := (spelled_slices split (separator.elim 0 Operation.stop ≤ ·.offset)).filter
    (· ∉ signatures.map push)
  obtain ⟨others, placed⟩ := spelled.parts 0
  exact ⟨others, placed.operationsFrom⟩

end LedgerScript.Script
