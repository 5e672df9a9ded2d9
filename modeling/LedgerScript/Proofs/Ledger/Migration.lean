import LedgerScript.Ledger.Migration
import LedgerScript.Proofs.Ledger.RoundTrip
import Mathlib.Data.List.Forall2

namespace LedgerScript

/-- The value that a field takes from an earlier one: that value if it is of the field's kind, else
the default. -/
def Field.settle (field : Field) : Option Value → Value
  | some value => if field.encoding.accepts value then value else field.default
  | none => field.default

theorem Field.settle_of_accepts {field : Field} {value : Value}
    (h : field.encoding.accepts value = true) : field.settle (some value) = value := by
  simp [settle, h]

namespace Record

theorem lookup_provide_self (values : List (String × Value)) (field : Field) :
    (provide values field).lookup field.name = some (field.settle (values.lookup field.name)) := by
  unfold provide
  cases found : values.lookup field.name with
  | none => simp [Field.settle]
  | some value =>
    by_cases accepts : field.encoding.accepts value = true
    · simp [accepts, found, Field.settle]
    · simp [accepts, Field.settle]

theorem lookup_provide_of_ne (values : List (String × Value)) {field : Field} {name : String}
    (h : name ≠ field.name) : (provide values field).lookup name = values.lookup name := by
  unfold provide
  split
  · rfl
  · exact Assoc.lookup_put_of_ne h field.default values

theorem lookup_foldl_provide_of_notMem (values : List (String × Value)) {fields : List Field}
    {name : String} (h : name ∉ fields.map Field.name) :
    (fields.foldl provide values).lookup name = values.lookup name := by
  induction fields generalizing values with
  | nil => rfl
  | cons field fields ih =>
    have apart : name ≠ field.name := List.ne_of_not_mem_cons h
    have others : name ∉ fields.map Field.name := List.not_mem_of_not_mem_cons h
    rw [List.foldl_cons, ih (provide values field) others, lookup_provide_of_ne values apart]

/-- Where no name stands twice, each field is provided for once. -/
theorem lookup_foldl_provide (values : List (String × Value)) {fields : List Field}
    (unique : (fields.map Field.name).Nodup) {field : Field} (member : field ∈ fields) :
    (fields.foldl provide values).lookup field.name =
      some (field.settle (values.lookup field.name)) := by
  induction fields generalizing values with
  | nil => cases member
  | cons first fields ih =>
    obtain ⟨apart, unique⟩ := List.nodup_cons.mp unique
    rw [List.foldl_cons]
    cases List.mem_cons.mp member with
    | inl own =>
      subst own
      rw [lookup_foldl_provide_of_notMem _ apart, lookup_provide_self]
    | inr later =>
      have ne : field.name ≠ first.name := fun same => apart (same ▸ List.mem_map_of_mem later)
      rw [ih (provide values first) unique later, lookup_provide_of_ne values ne]

/-- After migration every field has the value it takes. -/
theorem get?_migrate (record : Record) {schema : Schema} (unique : schema.names.Nodup)
    {field : Field} (member : field ∈ schema.fields) :
    (record.migrate schema).get? field.name =
      some (field.settle (record.values.lookup field.name)) := by
  have inSchema : field.name ∈ (record.migrate schema).schema.names := List.mem_map_of_mem member
  rw [get?_of_mem _ inSchema]
  exact lookup_foldl_provide record.values unique member

/-- What the new schema has no field for is left as it is. -/
theorem lookup_migrate_dormant (record : Record) {schema : Schema} {name : String}
    (h : name ∉ schema.names) :
    (record.migrate schema).values.lookup name = record.values.lookup name :=
  lookup_foldl_provide_of_notMem record.values h

/-- The later record has, up to a relation, each value of the earlier one that is of the kind which
the field of its name takes. -/
def KeepsShared (related : Value → Value → Prop) (old new : Record) : Prop :=
  ∀ field ∈ new.schema.fields, ∀ value, old.get? field.name = some value →
    field.encoding.accepts value = true →
    ∃ kept, new.get? field.name = some kept ∧ related value kept

/-- **Migration keeps what two schemas share.** -/
theorem migrate_keepsShared (record : Record) {schema : Schema} (unique : schema.names.Nodup) :
    record.KeepsShared Eq (record.migrate schema) := by
  intro field member value found accepts
  have kept := record.get?_migrate unique member
  rw [lookup_of_get? found, Field.settle_of_accepts accepts] at kept
  exact ⟨value, kept, rfl⟩

end Record

/-- A value and what it becomes: transactions follow the given schema and keep what they share with
it, and all else is the same. -/
inductive Value.ReboundTo (schema : Schema) : Value → Value → Prop
  | same {value : Value} (apart : ∀ list, value ≠ .transactions list) : ReboundTo schema value value
  | transactions {old new : List Record}
      (each : List.Forall₂ (fun tx tx' => tx'.schema = schema ∧ tx.KeepsShared Eq tx') old new) :
      ReboundTo schema (.transactions old) (.transactions new)

theorem Value.reboundTo_rebindValue {schema : Schema} (unique : schema.names.Nodup)
    (value : Value) : value.ReboundTo schema (Record.rebindValue schema value) := by
  cases value with
  | transactions list =>
    refine .transactions ?_
    rw [List.forall₂_map_right_iff]
    exact List.forall₂_same.mpr fun tx _ => ⟨rfl, tx.migrate_keepsShared unique⟩
  | int | bytes | inputs | outputs => exact .same (by simp)

namespace Record

theorem lookup_rebindTransactions (record : Record) (schema : Schema) (name : String) :
    (record.rebindTransactions schema).values.lookup name =
      (record.values.lookup name).map (rebindValue schema) := by
  obtain ⟨own, values⟩ := record
  simp only [rebindTransactions]
  induction values with
  | nil => rfl
  | cons binding values ih =>
    obtain ⟨key, value⟩ := binding
    by_cases same : name = key
    · subst same
      simp
    · rw [List.map_cons, Assoc.lookup_cons_of_ne same, Assoc.lookup_cons_of_ne same, ih]

theorem get?_rebindTransactions (record : Record) (schema : Schema) (name : String) :
    (record.rebindTransactions schema).get? name = (record.get? name).map (rebindValue schema) := by
  have schemas : (record.rebindTransactions schema).schema = record.schema := rfl
  unfold get?
  rw [schemas, lookup_rebindTransactions]
  split <;> rfl

/-- Every transaction that a rebound record holds, in dormant values too, is of the schema. -/
theorem schema_of_mem_rebindTransactions (record : Record) {schema : Schema} {name : String}
    {list : List Record}
    (h : (name, .transactions list) ∈ (record.rebindTransactions schema).values) :
    ∀ tx ∈ list, tx.schema = schema := by
  obtain ⟨⟨key, value⟩, -, same⟩ := List.mem_map.mp h
  cases value with
  | transactions before =>
    simp only [rebindValue, Prod.mk.injEq, Value.transactions.injEq] at same
    obtain ⟨-, rfl⟩ := same
    intro tx member
    obtain ⟨old, -, rfl⟩ := List.mem_map.mp member
    rfl
  | int | bytes | inputs | outputs => simp [rebindValue] at same

/-- **Migration that includes the transactions** keeps what two schemas share, and what each
transaction shares with the schema of transactions. -/
theorem rebind_keepsShared (record : Record) {schema nested : Schema}
    (unique : schema.names.Nodup) (nestedUnique : nested.names.Nodup) :
    record.KeepsShared (Value.ReboundTo nested)
      ((record.migrate schema).rebindTransactions nested) := by
  intro field member value found accepts
  obtain ⟨kept, migrated, rfl⟩ := record.migrate_keepsShared unique field member value found accepts
  refine ⟨rebindValue nested value, ?_, Value.reboundTo_rebindValue nestedUnique value⟩
  rw [get?_rebindTransactions, migrated]
  rfl

end Record
end LedgerScript
