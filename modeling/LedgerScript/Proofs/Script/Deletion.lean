import LedgerScript.Proofs.Script.Partition

namespace LedgerScript

/-- The code of an operation and the data that it carries. -/
def Operation.form (op : Operation) : UInt8 × Option Bytes := (op.opcode, op.data)

namespace Script

/-- What operations are does not depend on where they lie. -/
theorem form_relocated (start : Nat) (ops : List Operation) :
    (relocated start ops).map Operation.form = ops.map Operation.form := by
  induction ops generalizing start with
  | nil => rfl
  | cons op ops ih =>
    rw [relocated, List.map_cons, List.map_cons, ih]
    rfl

section Split

variable {script : Script} {ops : List Operation} (split : operations script = .ok ops)
include split

theorem findAndDelete_eq (pattern : Bytes) :
    findAndDelete script pattern = .ok ((ops.map (slice script)).filter (· ≠ pattern)).flatten := by
  have deleted := (parts_slices split).spelled.findAndDelete pattern
  rwa [flatten_slices split] at deleted

/-- A code that carries no data is taken out as an operation of its own. -/
theorem withoutOpcode_eq {opcode : UInt8} (plain : lengthWidth? opcode = none) :
    withoutOpcode script opcode =
      .ok ((ops.filter (·.opcode ≠ opcode)).map (slice script)).flatten := by
  have alone : ∀ op ∈ ops, (slice script op = [opcode] ↔ op.opcode = opcode) := by
    intro op member
    have spelt := spells_slice split op member
    constructor
    · intro same
      exact (spells_alone_iff.mp (same ▸ spelt)).1
    · intro same
      rw [same] at spelt
      exact spelt.eq_of_plain plain
  have same : ops.filter ((· ≠ [opcode]) ∘ slice script) = ops.filter (·.opcode ≠ opcode) := by
    refine List.filter_congr fun op member => ?_
    rw [Function.comp_apply, decide_eq_decide, ne_eq, ne_eq, alone op member]
  rw [withoutOpcode, findAndDelete_eq split, List.filter_map, same]

/-- What is left splits into the operations with other bytes than the pattern. -/
theorem operations_findAndDelete (pattern : Bytes) :
    ∃ rest others, findAndDelete script pattern = .ok rest ∧ operations rest = .ok others ∧
      others.map Operation.form = (ops.filter (slice script · ≠ pattern)).map Operation.form ∧
      others.map (slice rest) = (ops.filter (slice script · ≠ pattern)).map (slice script) := by
  have among : ops.filter (slice script · ≠ pattern) ⊆ ops := List.filter_sublist.subset
  have placed := parts_relocated split among 0
  refine ⟨_, _, ?_, placed.operationsFrom, form_relocated 0 _, placed.map_slice [] rfl⟩
  rw [findAndDelete_eq split, List.filter_map]
  rfl

/-- Deletions are filters of the operations' bytes, one after another. -/
theorem findAndDelete_twice (p q : Bytes) :
    ∃ rest, findAndDelete script p = .ok rest ∧
      findAndDelete rest q =
        .ok ((ops.map (slice script)).filter fun part => part ≠ p ∧ part ≠ q).flatten := by
  have spelled := (parts_slices split).spelled
  refine ⟨_, findAndDelete_eq split p, ?_⟩
  rw [(spelled.filter _).findAndDelete q, List.filter_filter]
  simp only [Bool.decide_and, Bool.and_comm]

end Split

/-- **Taking a pattern out of a script leaves the other operations as they are.** What is left
splits into the operations with other bytes, with their codes, their data and their bytes, and
taking the pattern out again changes nothing. Two patterns may be taken out in either order, and the
pushes of several signatures in any order. -/
theorem findAndDelete_leaves {script : Script} {ops : List Operation}
    (split : operations script = .ok ops) :
    (∀ pattern, ∃ rest others, findAndDelete script pattern = .ok rest ∧
      operations rest = .ok others ∧
      others.map Operation.form = (ops.filter (slice script · ≠ pattern)).map Operation.form ∧
      others.map (slice rest) = (ops.filter (slice script · ≠ pattern)).map (slice script) ∧
      findAndDelete rest pattern = .ok rest) ∧
    (∀ p q, ∃ a b both, findAndDelete script p = .ok a ∧ findAndDelete a q = .ok both ∧
      findAndDelete script q = .ok b ∧ findAndDelete b p = .ok both) ∧
    ∀ signatures signatures' : List Bytes, signatures.Perm signatures' →
      signatures.foldlM (fun code item => findAndDelete code (push item)) script =
        signatures'.foldlM (fun code item => findAndDelete code (push item)) script := by
  refine ⟨?_, ?_, ?_⟩
  · intro pattern
    obtain ⟨rest, others, deleted, parsed, forms, slices⟩ := operations_findAndDelete split pattern
    refine ⟨rest, others, deleted, parsed, forms, slices, ?_⟩
    obtain ⟨_, once, twice⟩ := findAndDelete_twice split pattern pattern
    cases deleted.symm.trans once
    rw [twice, ← deleted, findAndDelete_eq split]
    simp only [and_self]
  · intro p q
    obtain ⟨a, first, both⟩ := findAndDelete_twice split p q
    obtain ⟨b, second, both'⟩ := findAndDelete_twice split q p
    refine ⟨a, b, _, first, both, second, ?_⟩
    rw [both']
    simp only [and_comm]
  · intro signatures signatures' reordered
    obtain ⟨parts, rfl, placed⟩ := operationsFrom_eq_ok_iff.mp split
    rw [placed.spelled.deletePushes, placed.spelled.deletePushes]
    simp only [(reordered.map push).mem_iff]

/-- A byte pushed in each of three forms, separators, and a push of a separator's byte. -/
def assorted : Script := [0xab, 1, 7, 0x4c, 1, 7, 1, 0xab, 0x4d, 1, 0, 7, 0xab, 1, 7]

def assortedOps : List Operation :=
  [⟨0, 1, 0xab, none⟩, ⟨1, 3, 1, some [7]⟩, ⟨3, 6, 0x4c, some [7]⟩, ⟨6, 8, 1, some [0xab]⟩,
    ⟨8, 12, 0x4d, some [7]⟩, ⟨12, 13, 0xab, none⟩, ⟨13, 15, 1, some [7]⟩]

/-- Only the push in the same form goes with a push, and only separators that are run with one. -/
theorem findAndDelete_leaves_assorted :
    operations assorted = .ok assortedOps ∧
    (∃ rest others, findAndDelete assorted [1, 7] = .ok rest ∧ operations rest = .ok others ∧
      others.map Operation.form =
        [(0xab, none), (0x4c, some [7]), (1, some [0xab]), (0x4d, some [7]), (0xab, none)] ∧
      findAndDelete rest [1, 7] = .ok rest) ∧
    (∃ a b, findAndDelete assorted [1, 7] = .ok a ∧ findAndDelete assorted [0xab] = .ok b ∧
      findAndDelete a [0xab] = .ok [0x4c, 1, 7, 1, 0xab, 0x4d, 1, 0, 7] ∧
      findAndDelete b [1, 7] = .ok [0x4c, 1, 7, 1, 0xab, 0x4d, 1, 0, 7]) := by
  have split : operations assorted = .ok assortedOps := rfl
  obtain ⟨leaves, commutes, -⟩ := findAndDelete_leaves split
  refine ⟨split, ?_, ?_⟩
  · obtain ⟨rest, others, deleted, parsed, forms, -, again⟩ := leaves [1, 7]
    exact ⟨rest, others, deleted, parsed, forms.trans (by decide), again⟩
  · obtain ⟨a, b, both, first, both_a, second, both_b⟩ := commutes [1, 7] [0xab]
    have left : findAndDelete a [0xab] = .ok [0x4c, 1, 7, 1, 0xab, 0x4d, 1, 0, 7] := by
      cases first
      rfl
    cases both_a.symm.trans left
    exact ⟨a, b, first, second, left, both_b⟩

end Script
end LedgerScript
