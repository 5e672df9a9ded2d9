import LedgerScript.Proofs.Script.Rendering
import LedgerScript.Proofs.Script.Shortest

/-!
What a script means, and how much of it the text keeps.

No bytes with the meaning of an operation are fewer than those its word stands for, so no operation
can make up for what another loses.
-/
namespace LedgerScript

/-- Both operations push the same data, or neither pushes any and their codes are the same. -/
def Operation.SameMeaning (a b : Operation) : Prop :=
  b.data = a.data ∧ (a.data = none → b.opcode = a.opcode)

namespace Script

/-- The bytes are an operation with the meaning of a given one. -/
def Means (op : Operation) (part : Bytes) : Prop :=
  ∃ opcode, Spells part opcode op.data ∧ (op.data = none → opcode = op.opcode)

theorem Parts.means {offset : Nat} {parts : List Bytes} {others : List Operation}
    (placed : Parts offset parts others) {ops : List Operation}
    (same : List.Forall₂ Operation.SameMeaning ops others) : List.Forall₂ Means ops parts := by
  induction placed generalizing ops with
  | nil =>
    cases same
    exact .nil
  | cons head tail ih =>
    cases same with
    | cons first rest =>
      obtain ⟨data, code⟩ := first
      exact .cons ⟨_, data ▸ head, code⟩ (ih rest)

theorem exists_parts_of_means {ops : List Operation} {parts : List Bytes}
    (h : List.Forall₂ Means ops parts) (offset : Nat) :
    ∃ others, Parts offset parts others ∧ List.Forall₂ Operation.SameMeaning ops others := by
  refine exists_parts (h.imp ?_) offset
  rintro op part ⟨opcode, spelt, code⟩
  exact ⟨opcode, op.data, spelt, fun _ _ => ⟨rfl, code⟩⟩

/-- A script splits into operations of given meanings when it is put together from such. -/
theorem exists_sameMeaning_iff {script : Script} {ops : List Operation} :
    (∃ others, operations script = .ok others ∧ List.Forall₂ Operation.SameMeaning ops others) ↔
      ∃ parts, parts.flatten = script ∧ List.Forall₂ Means ops parts := by
  constructor
  · rintro ⟨others, split, same⟩
    obtain ⟨parts, flat, placed⟩ := operationsFrom_eq_ok_iff.mp split
    exact ⟨parts, flat, placed.means same⟩
  · rintro ⟨parts, flat, means⟩
    obtain ⟨others, placed, same⟩ := exists_parts_of_means means 0
    exact ⟨others, operationsFrom_eq_ok_iff.mpr ⟨parts, flat, placed⟩, same⟩

theorem means_push {op : Operation} {data : Bytes} (h : op.data = some data)
    (small : data.length < 0x100000000) : Means op (push data) := by
  obtain ⟨opcode, spelt⟩ := spells_push small
  exact ⟨opcode, h ▸ spelt, fun bare => by simp [bare] at h⟩

theorem means_renewed_iff {op : Operation} {part : Bytes} (spelt : Spells part op.opcode op.data) :
    Means op (renewed op) ↔ (op.data = some [] → op.opcode = 0) := by
  obtain ⟨offset, stop, opcode, data⟩ := op
  cases data with
  | none =>
    cases spelt with
    | plain width => exact ⟨fun _ => nofun, fun _ => ⟨opcode, .plain width, fun _ => rfl⟩⟩
  | some data =>
    have shortest : Means ⟨offset, stop, opcode, some data⟩ (push data) :=
      means_push rfl spelt.length_lt
    cases data with
    | nil =>
      constructor
      · rintro ⟨_, alone, -⟩ -
        simpa using (spells_alone_iff.mp alone).2
      · intro zero
        cases zero rfl
        exact shortest
    | cons b rest => exact ⟨fun _ => nofun, fun _ => shortest⟩

theorem Means.length_renewed_le {op : Operation} {part : Bytes} (h : Means op part) :
    (renewed op).length ≤ part.length := by
  obtain ⟨opcode, spelt, -⟩ := h
  unfold renewed
  split
  · next b rest data =>
    rw [data] at spelt
    exact spelt.length_push_le
  · generalize op.data = data at spelt
    cases spelt <;> simp

/-- What the words for operations stand for has their meaning when each of them has. -/
theorem exists_means_flatten_iff {ops : List Operation} :
    (∃ parts, parts.flatten = (ops.map renewed).flatten ∧ List.Forall₂ Means ops parts) ↔
      ∀ op ∈ ops, Means op (renewed op) := by
  constructor
  · rintro ⟨parts, flat, means⟩
    -- each part is long enough, and together they are as long as what the words stand for
    have shorter : List.Forall₂ (fun a b => a.length ≤ b.length) (ops.map renewed) parts := by
      rw [List.forall₂_map_left_iff]
      exact means.imp fun _ _ h => h.length_renewed_le
    rwa [← Fallible.eq_of_flatten_eq shorter flat.symm, List.forall₂_map_right_iff,
      List.forall₂_same] at means
  · intro each
    refine ⟨ops.map renewed, rfl, ?_⟩
    rwa [List.forall₂_map_right_iff, List.forall₂_same]

/-- **The text of a script is always read, and what it stands for has the meaning of the script
exactly if each push of nothing is `OP_0`.** -/
theorem operations_ofText_toText {script : Script} {ops : List Operation}
    (split : operations script = .ok ops) :
    ∃ text result, toText .standard script = .ok text ∧ ofText .standard text = .ok result ∧
      ((∃ others, operations result = .ok others ∧
          List.Forall₂ Operation.SameMeaning ops others) ↔
        ∀ op ∈ ops, op.data = some [] → op.opcode = 0) := by
  obtain ⟨text, written, read⟩ := ofText_toText_eq Table.standard_readable split
  refine ⟨text, _, written, read, ?_⟩
  rw [exists_sameMeaning_iff, exists_means_flatten_iff]
  apply forall₂_congr
  intro op member
  exact means_renewed_iff (spells_slice split op member)

/-- Pushes of one byte and of none, a code without data, one without a name, and the byte once more.
The first push spells its length in four bytes. -/
def roundabout : Script := [0x4e, 1, 0, 0, 0, 7, 0, 0x61, 0xff, 1, 7]

def roundaboutOps : List Operation :=
  [⟨0, 6, 0x4e, some [7]⟩, ⟨6, 7, 0, some []⟩, ⟨7, 8, 0x61, none⟩, ⟨8, 9, 0xff, none⟩,
    ⟨9, 11, 1, some [7]⟩]

theorem operations_ofText_toText_roundabout :
    operations roundabout = .ok roundaboutOps ∧
    ∃ text result others, toText .standard roundabout = .ok text ∧
      ofText .standard text = .ok result ∧ operations result = .ok others ∧
      List.Forall₂ Operation.SameMeaning roundaboutOps others := by
  have split : operations roundabout = .ok roundaboutOps := rfl
  obtain ⟨text, result, written, read, kept⟩ := operations_ofText_toText split
  obtain ⟨others, means, same⟩ := kept.mpr (by decide)
  exact ⟨split, text, result, others, written, read, means, same⟩

/-- The word for a push of nothing with its length spelt out is that of its code, which then takes
for the length what follows, or finds none. -/
theorem operations_ofText_toText_hollow :
    operations [0x4c, 0] = .ok [⟨0, 2, 0x4c, some []⟩] ∧
    toText .standard [0x4c, 0] = .ok "OP_UNKNOWN_4c" ∧
    ofText .standard "OP_UNKNOWN_4c" = .ok [0x4c] ∧
    operations [0x4c] = .error (.truncated 1 0) ∧
    operations [0x4c, 0, 0] = .ok [⟨0, 2, 0x4c, some []⟩, ⟨2, 3, 0, some []⟩] ∧
    toText .standard [0x4c, 0, 0] = .ok "OP_UNKNOWN_4c OP_0" ∧
    ofText .standard "OP_UNKNOWN_4c OP_0" = .ok [0x4c, 0] := by
  refine ⟨rfl, ?_, ?_, rfl, rfl, ?_, ?_⟩ <;> decide +kernel

end Script
end LedgerScript
