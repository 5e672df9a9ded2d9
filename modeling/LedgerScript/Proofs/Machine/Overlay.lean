import LedgerScript.Assoc
import LedgerScript.Machine.Table
import LedgerScript.Proofs.Fallible

namespace LedgerScript.Table

section Entries

variable {table : Table} {value : UInt8} {o : Override}

theorem override?_mem (h : table.override? value = some o) :
    o ∈ table.overrides ∧ o.value = value :=
  ⟨List.mem_reverse.mp (List.mem_of_find?_eq_some h), by simpa using List.find?_some h⟩

theorem override?_eq_none_iff :
    table.override? value = none ↔ ∀ o ∈ table.overrides, o.value ≠ value := by
  simp [override?]

theorem override?_of_last {before after : List Override}
    (split : table.overrides = before ++ o :: after) (last : ∀ p ∈ after, p.value ≠ o.value) :
    table.override? o.value = some o := by
  have later : after.reverse.find? (·.value = o.value) = none := by simpa using last
  rw [override?, split, List.reverse_append, List.reverse_cons, List.append_assoc,
    List.find?_append, later, Option.none_or, List.singleton_append,
    List.find?_cons_of_pos (by simp)]

/-- **The last override of a code counts.** -/
theorem entry?_of_last {before after : List Override}
    (split : table.overrides = before ++ o :: after) (last : ∀ p ∈ after, p.value ≠ o.value) :
    table.entry? o.value = some ⟨o.name, o.handler⟩ := by
  rw [Table.entry?, override?_of_last split last]

theorem entry?_of_plain (plain : ∀ o ∈ table.overrides, o.value ≠ value) :
    table.entry? value = Entry.standard? value := by
  rw [Table.entry?, override?_eq_none_iff.mpr plain]

theorem mem_overridden : value ∈ table.overridden ↔ ∃ o ∈ table.overrides, o.value = value := by
  rw [overridden, List.mem_eraseDups, List.mem_map]

theorem isOverridden_eq_false_iff :
    table.isOverridden value = false ↔ table.override? value = none := by
  simp [isOverridden, override?_eq_none_iff]

end Entries

theorem isNameable_iff (value : UInt8) :
    isNameable value = true ↔ ¬(0x01 ≤ value ∧ value ≤ 0x4e) := by
  rw [isNameable, Bool.not_eq_true', ← Bool.not_eq_true, Bool.and_eq_true, decide_eq_true_eq,
    decide_eq_true_eq, Opcode.pushData4]

section Names

variable {table : Table} {value : UInt8} {name : String}

theorem overrideNamed?_mem (h : table.overrideNamed? name = some value) :
    value ∈ table.overridden ∧ isNameable value = true ∧ table.nameOf? value = some name := by
  have larger : Std.MaxEqOr UInt8 := ⟨fun a b => by
    show (if a ≤ b then b else a) = a ∨ (if a ≤ b then b else a) = b
    split <;> simp⟩
  obtain ⟨member, own⟩ := List.mem_filter.mp (List.max?_mem h)
  rw [Bool.and_eq_true, beq_iff_eq] at own
  exact ⟨member, own⟩

/-- Where overridden codes have a name, one of them is found under it. -/
theorem exists_overrideNamed? (member : value ∈ table.overridden)
    (nameable : isNameable value = true) (named : table.nameOf? value = some name) :
    ∃ other, table.overrideNamed? name = some other := by
  rw [← Option.isSome_iff_exists, overrideNamed?, List.isSome_max?_iff]
  exact List.ne_nil_of_mem (List.mem_filter.mpr ⟨member, by simp [nameable, named]⟩)

/-- The standard code of a name has this name. -/
theorem standardNamed?_entry (h : standardNamed? name = some value) :
    (Entry.standard? value).map Entry.name = some name := by
  have listed : ∀ i : Fin Opcode.namesFromPushData1.length,
      (Entry.standard? (UInt8.ofNat (Opcode.pushData1.toNat + i))).map Entry.name =
        some Opcode.namesFromPushData1[i] := by decide +kernel
  unfold standardNamed? at h
  split at h
  · next zero =>
    cases h
    exact congrArg some zero.symm
  · obtain ⟨i, found, rfl⟩ := Option.map_eq_some_iff.mp h
    obtain ⟨inside, own, -⟩ := List.idxOf?_eq_some_iff.mp found
    exact (listed ⟨i, inside⟩).trans (congrArg some own)

/-- **A name resolves to a code of this name**, or stands for the code by custom. Codes that need
data after them are never named. -/
theorem valueOf?_resolves (h : table.valueOf? name = some value) :
    isNameable value = true ∧ (table.nameOf? value = some name ∨ (name, value) ∈ aliases) := by
  unfold valueOf? at h
  split at h
  · next found =>
    cases h
    obtain ⟨-, nameable, named⟩ := overrideNamed?_mem found
    exact ⟨nameable, .inl named⟩
  · split at h
    · next found =>
      cases h
      obtain ⟨standard, plain⟩ := Option.filter_eq_some_iff.mp found
      rw [Bool.and_eq_true, Bool.not_eq_true', isOverridden_eq_false_iff] at plain
      refine ⟨plain.1, .inl ?_⟩
      rw [nameOf?, entry?, plain.2]
      exact standardNamed?_entry standard
    · have each : ∀ p ∈ aliases, isNameable p.2 = true := by decide
      have member := Assoc.mem_of_lookup h
      exact ⟨each _ member, .inr member⟩

/-- **The name of an override resolves to an override of this name**, though not always to the same
one. -/
theorem valueOf?_of_overridden (member : value ∈ table.overridden)
    (nameable : isNameable value = true) (named : table.nameOf? value = some name) :
    ∃ other, table.valueOf? name = some other ∧ other ∈ table.overridden ∧
      isNameable other = true ∧ table.nameOf? other = some name := by
  obtain ⟨other, found⟩ := exists_overrideNamed? member nameable named
  refine ⟨other, ?_, overrideNamed?_mem found⟩
  rw [valueOf?, found]

/-- A code that is spoken of by a further name has an entry. -/
theorem nameOf?_isSome_of_alias (custom : (name, value) ∈ aliases) :
    ∃ own, table.nameOf? value = some own := by
  have each : ∀ p ∈ aliases, (Entry.standard? p.2).isSome = true := by decide
  obtain ⟨entry, standard⟩ := Option.isSome_iff_exists.mp (each _ custom)
  unfold nameOf? entry?
  cases table.override? value with
  | none => exact ⟨entry.name, by rw [standard, Option.map_some]⟩
  | some o => exact ⟨o.name, rfl⟩

/-- **A code is written under no name exactly if no name resolves to it.** -/
theorem textName?_eq_none_iff :
    table.textName? value = none ↔ ∀ name, table.valueOf? name ≠ some value := by
  constructor
  · intro unwritten name resolved
    obtain ⟨-, named | custom⟩ := valueOf?_resolves resolved
    · simp [textName?, named, resolved] at unwritten
    · obtain ⟨own, named⟩ : ∃ own, table.nameOf? value = some own := nameOf?_isSome_of_alias custom
      rw [textName?, named] at unwritten
      dsimp only at unwritten
      split at unwritten
      · cases unwritten
      · have known : name ∈ aliases.map Prod.fst := List.mem_map_of_mem custom
        exact absurd resolved (by simpa using List.find?_eq_none.mp unwritten name known)
  · intro unresolved
    rw [Option.eq_none_iff_forall_ne_some]
    exact fun name written => unresolved name (valueOf?_textName? written)

end Names

/-- What a table holds that lays overrides on the standard one, and what its names resolve to. -/
structure Indexes (table : Table) (overrides : List Override) : Prop where
  overridden_entry : ∀ before o after, overrides = before ++ o :: after →
    (∀ p ∈ after, p.value ≠ o.value) → table.entry? o.value = some ⟨o.name, o.handler⟩
  standard_entry : ∀ value, (∀ o ∈ overrides, o.value ≠ value) →
    table.entry? value = Entry.standard? value
  overridden_iff : ∀ value, value ∈ table.overridden ↔ ∃ o ∈ overrides, o.value = value
  overridden_ordered : table.overridden.Pairwise fun a b =>
    (overrides.map Override.value).idxOf a < (overrides.map Override.value).idxOf b
  resolves : ∀ name value, table.valueOf? name = some value →
    ¬(0x01 ≤ value ∧ value ≤ 0x4e) ∧
      (table.nameOf? value = some name ∨ (name, value) ∈ aliases)
  prefers : ∀ value name, value ∈ table.overridden → ¬(0x01 ≤ value ∧ value ≤ 0x4e) →
    table.nameOf? value = some name → ∃ other, table.valueOf? name = some other ∧
      other ∈ table.overridden ∧ ¬(0x01 ≤ other ∧ other ≤ 0x4e) ∧ table.nameOf? other = some name
  written : ∀ value name, table.textName? value = some name → table.valueOf? name = some value
  unwritten : ∀ value, table.textName? value = none → ∀ name, table.valueOf? name ≠ some value

/-- **Overrides and names agree** in every table. For each code the last override counts, or the
standard entry where there is none. A name resolves to a code of this name, or to the standard code
that it stands for by custom, and never to one that needs data after it; overrides come first. The
name under which a code is written resolves to the code, and it is missing only where none does. -/
theorem standard_overlay_indexes (overrides : List Override) :
    (standard.overlay overrides).Indexes overrides where
  overridden_entry before o after split last := entry?_of_last split last
  standard_entry value plain := entry?_of_plain plain
  overridden_iff value := mem_overridden
  overridden_ordered := Fallible.pairwise_idxOf_eraseDups (overrides.map Override.value)
  resolves name value h := by
    rw [← isNameable_iff]
    exact valueOf?_resolves h
  prefers value name member nameable named := by
    simp only [← isNameable_iff] at nameable ⊢
    exact valueOf?_of_overridden member nameable named
  written value name h := valueOf?_textName? h
  unwritten value h := textName?_eq_none_iff.mp h

/-- Overrides of which two are of one code, two have one name, one has the name of a standard code
and one a name that stands for a code by custom. -/
def disputed : List Override :=
  [⟨0xc1, "OP_TRUE", .nop⟩, ⟨0xb0, "OP_DUP", .nop⟩, ⟨0xc1, "OP_DUP", .disabled⟩,
    ⟨0xc2, "OP_TRUE", .nop⟩, ⟨0x4c, "OP_NIP", .nop⟩]

theorem standard_overlay_indexes_disputed :
    let table := standard.overlay disputed
    table.entry? 0xc1 = some ⟨"OP_DUP", .disabled⟩ ∧ table.overridden = [0xc1, 0xb0, 0xc2, 0x4c] ∧
      table.nameOf? 0xb0 = some "OP_DUP" ∧ table.valueOf? "OP_DUP" = some 0xc1 ∧
      (∀ name, table.valueOf? name ≠ some 0x76) ∧ (∀ name, table.valueOf? name ≠ some 0x4c) ∧
      table.textName? 0x51 = some "OP_1" ∧ table.valueOf? "OP_1" = some 0x51 := by
  intro table
  have indexes : table.Indexes disputed := standard_overlay_indexes disputed
  have unwritten : table.textName? 0x76 = none := by decide +kernel
  have written : table.textName? 0x51 = some "OP_1" := by decide +kernel
  refine ⟨?_, by decide +kernel, by decide +kernel, by decide +kernel,
    indexes.unwritten _ unwritten, ?_, written, indexes.written _ _ written⟩
  · exact indexes.overridden_entry (disputed.take 2) _ (disputed.drop 3) rfl (by decide)
  · intro name resolved
    exact (indexes.resolves name 0x4c resolved).1 (by decide)

end LedgerScript.Table
