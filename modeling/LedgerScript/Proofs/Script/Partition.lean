import LedgerScript.Proofs.Script.Covered

namespace LedgerScript

namespace Operation

/-- How many bytes the operation takes. -/
def length (op : Operation) : Nat := op.stop - op.offset

/-- The operation so many bytes further on. -/
def shift (n : Nat) (op : Operation) : Operation :=
  { op with offset := op.offset + n, stop := op.stop + n }

/-- The operation at another place. -/
def moveTo (start : Nat) (op : Operation) : Operation :=
  { op with offset := start, stop := start + op.length }

end Operation

namespace Script

/-- The operations lie one after another, from one place to another. -/
def Tiles (start stop : Nat) : List Operation → Prop
  | [] => start = stop
  | op :: ops => op.offset = start ∧ op.offset < op.stop ∧ Tiles op.stop stop ops

/-- The operations put one after another, from a place on. -/
def relocated (start : Nat) : List Operation → List Operation
  | [] => []
  | op :: ops => op.moveTo start :: relocated (start + op.length) ops

theorem Parts.tiles {offset : Nat} {parts : List Bytes} {ops : List Operation}
    (h : Parts offset parts ops) : Tiles offset (offset + parts.flatten.length) ops := by
  induction h with
  | nil => rfl
  | cons head tail ih =>
    have some := head.length_pos
    rw [List.flatten_cons, List.length_append, ← Nat.add_assoc]
    exact ⟨rfl, Nat.lt_add_of_pos_right some, ih⟩

theorem Spells.suffix {part : Bytes} {opcode : UInt8} {data : Bytes}
    (h : Spells part opcode (some data)) : data <:+ part := by
  cases h with
  | @push _ head _ width length => exact ⟨opcode :: head, by simp⟩

theorem Parts.forall₂_length {offset : Nat} {parts : List Bytes} {ops : List Operation}
    (h : Parts offset parts ops) :
    List.Forall₂ (fun op part => part.length = Operation.length op) ops parts := by
  induction h with
  | nil => exact .nil
  | cons _ _ ih => exact .cons (Nat.add_sub_cancel_left _ _).symm ih

theorem length_slice {script : Script} {ops : List Operation}
    (split : operations script = .ok ops) : ∀ op ∈ ops, (slice script op).length = op.length := by
  have lengths := (parts_slices split).forall₂_length
  rw [List.forall₂_map_right_iff, List.forall₂_same] at lengths
  exact lengths

/-- **Operations of a script can be put together again**, from any place on. -/
theorem parts_relocated {script : Script} {ops : List Operation}
    (split : operations script = .ok ops) {kept : List Operation} (among : kept ⊆ ops)
    (start : Nat) : Parts start (kept.map (slice script)) (relocated start kept) := by
  induction kept generalizing start with
  | nil => exact .nil
  | cons op kept ih =>
    obtain ⟨member, among⟩ := List.cons_subset.mp among
    rw [List.map_cons, relocated, Operation.moveTo, ← length_slice split op member]
    exact .cons (spells_slice split op member) (ih among _)

/-- Where a script stands makes no difference to its operations but their places. -/
theorem operationsFrom_shift (n offset skip : Nat) (script : Script) :
    operationsFrom (offset + n) skip script =
      (operationsFrom offset skip script).map (List.map (Operation.shift n)) := by
  induction script generalizing offset skip with
  | nil => rfl
  | cons opcode rest ih =>
    cases skip with
    | succ skip => exact ih offset skip
    | zero =>
      unfold operationsFrom
      cases payload opcode rest with
      | error e => rfl
      | ok p =>
        obtain ⟨size, data⟩ := p
        have stop : offset + n + 1 + size = offset + 1 + size + n := by omega
        simp only [stop, ih]
        cases operationsFrom (offset + 1 + size) size rest <;> rfl

/-- What begins with whole operations splits into these and those of the rest. -/
theorem Parts.operationsFrom_append {offset : Nat} {parts : List Bytes} {ops : List Operation}
    (h : Parts offset parts ops) (rest : Bytes) :
    Script.operationsFrom offset 0 (parts.flatten ++ rest) =
      (Script.operationsFrom (offset + parts.flatten.length) 0 rest).map (ops ++ ·) := by
  induction h with
  | nil =>
    rw [List.flatten_nil, List.nil_append, List.length_nil, Nat.add_zero]
    cases Script.operationsFrom _ 0 rest <;> rfl
  | cons head tail ih =>
    rw [List.flatten_cons, List.append_assoc, head.operationsFrom_append, ih, List.length_append,
      ← Nat.add_assoc]
    cases Script.operationsFrom _ 0 rest <;> rfl

/-- **What follows whole operations is split on its own**, and fails as it does on its own. -/
theorem operations_append {script : Script} {ops : List Operation}
    (split : operations script = .ok ops) (rest : Script) :
    operations (script ++ rest) =
      (operations rest).map fun others => ops ++ others.map (Operation.shift script.length) := by
  have follows := (parts_slices split).operationsFrom_append rest
  rw [flatten_slices split, operationsFrom_shift] at follows
  rw [operations, operations, follows]
  cases operationsFrom 0 0 rest <;> rfl

/-- **The operations of a script are its parts.** They tile it, and what an operation pushes is the
end of its bytes. Any of them, in any order, can be put together again, and are then the operations
of what they make up. What follows the script is split on its own. -/
theorem operations_partition {script : Script} {ops : List Operation}
    (split : operations script = .ok ops) :
    Tiles 0 script.length ops ∧
    (∀ op ∈ ops, ∀ data, op.data = some data → data <:+ slice script op) ∧
    (∀ kept, kept ⊆ ops →
      operations (kept.map (slice script)).flatten = .ok (relocated 0 kept)) ∧
    ∀ rest, operations (script ++ rest) =
      (operations rest).map fun others => ops ++ others.map (Operation.shift script.length) := by
  refine ⟨?_, ?_, ?_, operations_append split⟩
  · have tiles := (parts_slices split).tiles
    rwa [flatten_slices split, Nat.zero_add] at tiles
  · intro op member data pushed
    have spelt := spells_slice split op member
    rw [pushed] at spelt
    exact spelt.suffix
  · intro kept among
    exact (parts_relocated split among 0).operationsFrom

/-- Pushes of two bytes, of one byte with its length spelt out, and of none, and a code. -/
def pieces : Script := [2, 0xaa, 0xbb, 0x76, 0x4c, 1, 7, 0]

def piecesOps : List Operation :=
  [⟨0, 3, 2, some [0xaa, 0xbb]⟩, ⟨3, 4, 0x76, none⟩, ⟨4, 7, 0x4c, some [7]⟩, ⟨7, 8, 0, some []⟩]

/-- Two of the pieces the other way round, and the pieces with a push and with the beginning of a
push after them. -/
theorem operations_partition_pieces :
    operations pieces = .ok piecesOps ∧ Tiles 0 8 piecesOps ∧
    ([0xaa, 0xbb] : Bytes) <:+ [2, 0xaa, 0xbb] ∧
    operations [0x4c, 1, 7, 2, 0xaa, 0xbb] =
      .ok [⟨0, 3, 0x4c, some [7]⟩, ⟨3, 6, 2, some [0xaa, 0xbb]⟩] ∧
    operations (pieces ++ [1, 0x51]) = .ok (piecesOps ++ [⟨8, 10, 1, some [0x51]⟩]) ∧
    operations (pieces ++ [0x4d, 1]) = .error (.truncated 2 1) := by
  have split : operations pieces = .ok piecesOps := rfl
  obtain ⟨tiles, ends, again, follows⟩ := operations_partition split
  refine ⟨split, tiles, ?_, ?_, follows [1, 0x51], follows [0x4d, 1]⟩
  · exact ends ⟨0, 3, 2, some [0xaa, 0xbb]⟩ (by decide) _ rfl
  · exact again [⟨4, 7, 0x4c, some [7]⟩, ⟨0, 3, 2, some [0xaa, 0xbb]⟩] (by decide)

end Script
end LedgerScript
