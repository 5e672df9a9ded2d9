import LedgerScript.Proofs.Machine.Overlay
import LedgerScript.Proofs.Text.Words
import LedgerScript.Script.Text

namespace LedgerScript

open Text (IsWord)

namespace Script

/-- The name is a word that begins neither as a literal nor as the number of a code. -/
def Readable (name : String) : Prop :=
  IsWord name ∧ ¬ literalMark <+: name.toList ∧ ¬ unknownMark <+: name.toList

instance (name : String) : Decidable (Readable name) := inferInstanceAs (Decidable (_ ∧ _ ∧ _))

end Script

/-- Every override has a readable name. -/
def Table.Readable (table : Table) : Prop := ∀ o ∈ table.overrides, Script.Readable o.name

instance (table : Table) : Decidable table.Readable := inferInstanceAs (Decidable (∀ _ ∈ _, _))

theorem Table.standard_readable : Table.standard.Readable := by
  intro o member
  cases member

namespace Table

/-- An overridden code is named by an override. -/
theorem exists_override_of_mem {table : Table} {value : UInt8} (h : value ∈ table.overridden) :
    ∃ o ∈ table.overrides, table.nameOf? value = some o.name := by
  obtain ⟨o, member, own⟩ := mem_overridden.mp h
  cases found : table.override? value with
  | none => exact absurd own (override?_eq_none_iff.mp found o member)
  | some last =>
    exact ⟨last, (override?_mem found).1, by rw [nameOf?, entry?, found, Option.map_some]⟩

theorem readable_of_overrideNamed? {table : Table} (readable : table.Readable) {value : UInt8}
    {name : String} (h : table.overrideNamed? name = some value) : Script.Readable name := by
  obtain ⟨member, -, named⟩ := overrideNamed?_mem h
  obtain ⟨o, given, named'⟩ := exists_override_of_mem member
  cases named'.symm.trans named
  exact readable o given

theorem readable_of_standardNamed? {value : UInt8} {name : String}
    (h : standardNamed? name = some value) : Script.Readable name := by
  unfold standardNamed? at h
  split at h
  · next zero =>
    subst zero
    decide
  · have all : ∀ name ∈ Opcode.namesFromPushData1, Script.Readable name := by decide +kernel
    obtain ⟨i, found, -⟩ := Option.map_eq_some_iff.mp h
    exact all name (List.isSome_idxOf?.mp (by rw [found]; rfl))

theorem readable_of_aliases {value : UInt8} {name : String}
    (h : aliases.lookup name = some value) : Script.Readable name := by
  have all : ∀ p ∈ aliases, Script.Readable p.1 := by decide
  exact all (name, value) (Assoc.mem_of_lookup h)

/-- Every name that resolves to a code is readable. -/
theorem readable_of_valueOf? {table : Table} (readable : table.Readable) {value : UInt8}
    {name : String} (h : table.valueOf? name = some value) : Script.Readable name := by
  unfold valueOf? at h
  split at h
  · next found => exact readable_of_overrideNamed? readable found
  · split at h
    · next found => exact readable_of_standardNamed? (Option.filter_eq_some_iff.mp found).1
    · exact readable_of_aliases h

end Table
end LedgerScript
