import LedgerScript.Proofs.Ledger.RoundTrip

namespace LedgerScript

/-- No field holds transactions. -/
def Schema.Flat (schema : Schema) : Prop := ∀ field ∈ schema.fields, field.encoding ≠ .transactions

instance (schema : Schema) : Decidable schema.Flat :=
  inferInstanceAs (Decidable (∀ field ∈ schema.fields, field.encoding ≠ .transactions))

/-- Where no name stands twice, each field is found by its name. -/
theorem Schema.field?_of_mem {schema : Schema} (unique : schema.names.Nodup) {field : Field}
    (member : field ∈ schema.fields) : schema.field? field.name = some field := by
  obtain ⟨fields⟩ := schema
  induction fields with
  | nil => cases member
  | cons first fields ih =>
    obtain ⟨apart, unique⟩ := List.nodup_cons.mp unique
    simp only [field?, List.find?_cons] at ih ⊢
    cases List.mem_cons.mp member with
    | inl same => simp [same]
    | inr later =>
      have ne : first.name ≠ field.name := fun same => apart (same ▸ List.mem_map_of_mem later)
      simp only [ne, decide_false]
      exact ih unique later

/-- Where no name stands twice, a field is known by its name. -/
theorem Schema.eq_of_name_eq {schema : Schema} (unique : schema.names.Nodup) {f g : Field}
    (hf : f ∈ schema.fields) (hg : g ∈ schema.fields) (same : f.name = g.name) : f = g := by
  have found := Schema.field?_of_mem unique hf
  rw [same, Schema.field?_of_mem unique hg] at found
  exact (Option.some.inj found).symm

theorem Schema.mem_of_fieldWith? {schema : Schema} {encoding : Encoding} {field : Field}
    (found : schema.fieldWith? encoding = some field) :
    field ∈ schema.fields ∧ field.encoding = encoding :=
  ⟨List.mem_of_find?_eq_some found, by simpa using List.find?_some found⟩

/-- The same content is the same value, transactions apart. -/
theorem Value.sameContent_iff_eq {v w : Value} (flat : ∀ list, w ≠ .transactions list) :
    v.sameContent w = true ↔ v = w := by
  cases w with
  | transactions list => exact absurd rfl (flat list)
  | int | bytes | inputs | outputs => cases v <;> simp [Value.sameContent]

/-- A field that holds no transactions refuses them whatever they are. -/
theorem Value.write_eq_of_sameContent {v w : Value} (same : v.sameContent w = true) {field : Field}
    (flat : field.encoding ≠ .transactions) : v.write field = w.write field := by
  cases w with
  | transactions list =>
    cases v with
    | transactions others =>
      simp only [Value.write]
    | int | bytes | inputs | outputs => simp [Value.sameContent] at same
  | int | bytes | inputs | outputs =>
    rw [(Value.sameContent_iff_eq (by simp)).mp same]

/-- **Values determine bytes.** Records of one flat schema whose values agree are written alike. -/
theorem Record.write_eq_of_agree {a b : Record} (schema : b.schema = a.schema)
    (flat : a.schema.Flat) (same : ∀ field ∈ a.schema.fields,
      agree (a.get? field.name) (b.get? field.name) = true) : a.write = b.write := by
  rw [Record.write_eq, Record.write_eq, schema]
  congr 1
  refine List.map_congr_left fun field member => ?_
  have inSchema : field.name ∈ a.schema.names := List.mem_map_of_mem member
  have agreed := same field member
  rw [a.get?_of_mem inSchema, b.get?_of_mem (schema ▸ inSchema)] at agreed
  unfold writeField
  cases ha : a.values.lookup field.name with
  | none => cases hb : b.values.lookup field.name <;> simp_all [agree]
  | some v =>
    cases hb : b.values.lookup field.name with
    | none => simp_all [agree]
    | some w =>
      rw [ha, hb] at agreed
      exact Value.write_eq_of_sameContent agreed (flat field member)

/-- What a field without transactions is written from is not a list of transactions. -/
theorem Field.Writes.ne_transactions {field : Field} {value : Value} {b : Bytes}
    (h : field.Writes value b) (flat : field.encoding ≠ .transactions) (list : List Record) :
    value ≠ .transactions list := by
  rintro rfl
  cases h with
  | transactions encoding records => exact flat encoding

/-- A record of a flat schema that is written has a value for every field, and none of them is a
list of transactions. -/
theorem Record.get?_of_write (record : Record) (flat : record.schema.Flat) {b : Bytes}
    (written : record.write = .ofBytes b) {name : String} (member : name ∈ record.schema.names) :
    ∃ value, record.get? name = some value ∧ ∀ list, value ≠ .transactions list := by
  obtain ⟨field, inSchema, rfl⟩ := List.mem_map.mp member
  rw [Record.write_eq] at written
  obtain ⟨c, part, -⟩ := Written.length_le_of_mem (List.mem_map_of_mem inSchema) written
  obtain ⟨value, found, writes⟩ := record.writes_of_writeField part
  exact ⟨value, (record.get?_of_mem member).trans found,
    writes.ne_transactions (flat field inSchema)⟩

theorem Record.BoundTo.of_flat {record : Record} (flat : record.schema.Flat) {b : Bytes}
    (written : record.write = .ofBytes b) : record.BoundTo record.schema := by
  refine .intro rfl fun name list found => ?_
  have inSchema : name ∈ record.schema.names := Record.mem_names_of_get? found
  obtain ⟨value, own, ne⟩ := record.get?_of_write flat written inSchema
  exact absurd (Option.some.inj (own.symm.trans found)) (ne list)

/-- **Bytes determine values.** Records of one flat schema that are written as the same bytes have
the same values: both are what the bytes read back to. -/
theorem Record.get?_eq_of_write_eq {a b : Record} (schema : a.schema = b.schema)
    (flat : a.schema.Flat) {bytes : Bytes} (small : bytes.length < UInt64.size)
    (ha : a.write = .ofBytes bytes) (hb : b.write = .ofBytes bytes) {name : String}
    (member : name ∈ a.schema.names) : a.get? name = b.get? name := by
  have flat' : b.schema.Flat := schema ▸ flat
  have readA := (Record.BoundTo.of_flat flat ha).reads ha small bytes.length (Nat.le_refl _)
  have readB := (Record.BoundTo.of_flat flat' hb).reads hb small bytes.length (Nat.le_refl _)
  rw [← schema] at readB
  obtain ⟨record, readsA, -, valuesA⟩ := readA
  obtain ⟨record', readsB, -, valuesB⟩ := readB
  obtain ⟨rfl⟩ : record = record' := by
    have same := (readsA []).symm.trans (readsB [])
    injection same
  obtain ⟨v, x, hv, hx, sameA⟩ := valuesA name member
  obtain ⟨v', y, hv', hy, sameB⟩ := valuesB name member
  cases hv.symm.trans hv'
  obtain ⟨x', hx', flatX⟩ := a.get?_of_write flat ha member
  obtain ⟨y', hy', flatY⟩ := b.get?_of_write flat' hb (schema ▸ member)
  cases hx.symm.trans hx'
  cases hy.symm.trans hy'
  rw [hx, hy, ← (Value.sameContent_iff_eq flatX).mp sameA,
    (Value.sameContent_iff_eq flatY).mp sameB]

/-- **Under one flat schema bytes and content determine each other.** What else the records hold,
and how they came to be of the schema, makes no difference to either. A byte string in memory is
shorter than 2⁶⁴. -/
theorem Record.sameContent_iff_toBytes_eq {schema : Schema} (flat : schema.Flat) {a b : Record}
    (ha : a.schema = schema) (hb : b.schema = schema) {x y : Bytes} (writtenA : a.toBytes = .ok x)
    (writtenB : b.toBytes = .ok y) (small : x.length < UInt64.size) :
    a.sameContent b = true ↔ a.toBytes = b.toBytes := by
  subst ha
  have flatB : b.schema.Flat := hb ▸ flat
  have valuesA := Written.toExcept_eq_ok_iff.mp writtenA
  have valuesB := Written.toExcept_eq_ok_iff.mp writtenB
  constructor
  · intro same
    refine congrArg Written.toExcept (Record.write_eq_of_agree hb flat ?_)
    intro field member
    have inSchema : field.name ∈ a.schema.names := List.mem_map_of_mem member
    obtain ⟨v, hv, -⟩ := a.get?_of_write flat valuesA inSchema
    obtain ⟨w, hw, -⟩ := b.get?_of_write flatB valuesB (hb ▸ inSchema)
    have agreed := (Record.sameContent_iff a b).mp same field.name (List.mem_append_left _ inSchema)
    simpa only [effective?, hv, hw] using agreed
  · intro alike
    obtain rfl : x = y := Except.ok.inj (writtenA.symm.trans (alike.trans writtenB))
    refine Record.sameContent_of_values hb.symm fun name inSchema => ?_
    obtain ⟨v, hv, ne⟩ := a.get?_of_write flat valuesA inSchema
    have hw := Record.get?_eq_of_write_eq hb.symm flat small valuesA valuesB inSchema
    exact ⟨v, v, hv, hw ▸ hv, (Value.sameContent_iff_eq ne).mpr rfl⟩

/-- A number and a note. -/
def Schema.noted : Schema :=
  ⟨[⟨"n", .integer ⟨.big, true, 2⟩, none, .int 0⟩, ⟨"memo", .bytes, none, .bytes []⟩]⟩

/-- A transaction that has been migrated, and holds transactions and a number that lie dormant,
beside one that has been made under the schema, and one with another number. -/
theorem Record.sameContent_iff_toBytes_eq_dormant :
    let migrated := Record.nesting.migrate .noted
    let made : Record := ⟨.noted, [("memo", .bytes [7]), ("n", .int (-2))]⟩
    let other : Record := ⟨.noted, [("memo", .bytes [7]), ("n", .int 2)]⟩
    Schema.noted.Flat ∧ migrated.toBytes = .ok [0xff, 0xfe, 1, 7] ∧
    made.toBytes = .ok [0xff, 0xfe, 1, 7] ∧ other.toBytes = .ok [0, 2, 1, 7] ∧
    migrated.sameContent made = true ∧ migrated.sameContent other = false := by
  intro migrated made other
  have flat : Schema.noted.Flat := by decide
  have first : migrated.toBytes = .ok [0xff, 0xfe, 1, 7] := rfl
  have second : made.toBytes = .ok [0xff, 0xfe, 1, 7] := rfl
  have third : other.toBytes = .ok [0, 2, 1, 7] := rfl
  have small : [0xff, 0xfe, 1, 7].length < UInt64.size := by decide
  refine ⟨flat, first, second, third, ?_, ?_⟩
  · exact (Record.sameContent_iff_toBytes_eq flat rfl rfl first second small).mpr
      (first.trans second.symm)
  · rw [Bool.eq_false_iff, ne_eq,
      Record.sameContent_iff_toBytes_eq flat rfl rfl first third small, first, third]
    exact fun same => absurd (Except.ok.inj same) (by decide)

end LedgerScript
