import LedgerScript.Proofs.Ledger.Complete

/-!
When migration changes what a record says.

Migration fills in the defaults of the new schema, and agreement in content those of whichever
schema knows a name. Both come to the same unless something is dropped.
-/
namespace LedgerScript

/-- Values of the same content are of the same kind. -/
theorem Encoding.accepts_of_sameContent (encoding : Encoding) {v w : Value}
    (same : v.sameContent w = true) : encoding.accepts v = encoding.accepts w := by
  cases Value.sameContent_iff_matches.mp same with
  | same => rfl
  | transactions => cases encoding <;> rfl

/-- What a field takes is of its kind. -/
theorem Field.accepts_settle {field : Field} (typed : field.encoding.accepts field.default = true)
    (before : Option Value) : field.encoding.accepts (field.settle before) = true := by
  unfold settle
  split
  · split
    · assumption
    · exact typed
  · exact typed

/-- Where no name stands twice, a name has the default of its field. -/
theorem Schema.default?_of_mem {schema : Schema} (unique : schema.names.Nodup) {field : Field}
    (member : field ∈ schema.fields) : schema.default? field.name = some field.default := by
  rw [default?, field?_of_mem unique member, Option.map_some]

namespace Record

/-- There is a value for each field of the schema, and no other. -/
structure Exact (record : Record) : Prop where
  filled : ∀ field ∈ record.schema.fields, ∃ value, record.values.lookup field.name = some value
  only : ∀ name value, record.values.lookup name = some value → name ∈ record.schema.names

/-- A record of defaults is exact. -/
theorem exact_new {schema : Schema} (unique : schema.names.Nodup) : (new schema).Exact := by
  refine ⟨fun field member => ⟨field.default, lookup_new unique member⟩, fun name value held => ?_⟩
  obtain ⟨field, member, same⟩ := List.mem_map.mp (Assoc.mem_of_lookup held)
  cases same
  exact List.mem_map_of_mem member

/-- And it stays so whatever it is set to. -/
theorem Exact.set {record next : Record} (exact : record.Exact) {name : String} {value : Value}
    (done : record.set name value = .ok next) : next.Exact := by
  obtain ⟨own, found, -, rfl⟩ := set_eq_ok_iff.mp done
  have named : own.name = name := by simpa using List.find?_some found
  have inSchema : name ∈ record.schema.names :=
    named ▸ List.mem_map_of_mem (List.mem_of_find?_eq_some found)
  refine ⟨fun field member => ?_, fun other given held => ?_⟩
  · rw [Assoc.lookup_put]
    split
    · exact ⟨value, rfl⟩
    · exact exact.filled field member
  · rw [Assoc.lookup_put] at held
    split at held
    · next same => exact same ▸ inSchema
    · exact exact.only other given held

theorem Exact.exists_get? {record : Record} (exact : record.Exact) {field : Field}
    (member : field ∈ record.schema.fields) : ∃ value, record.get? field.name = some value := by
  obtain ⟨value, held⟩ := exact.filled field member
  exact ⟨value, (record.get?_of_mem (List.mem_map_of_mem member)).trans held⟩

/-- Fields that the new schema lacks have their defaults, and the values of the others are of the
kinds that it takes. -/
structure DropsNothing (record : Record) (schema : Schema) : Prop where
  lacking : ∀ field ∈ record.schema.fields, field.name ∉ schema.names →
    ∃ value, record.get? field.name = some value ∧ value.sameContent field.default = true
  common : ∀ field ∈ schema.fields, ∀ value, record.get? field.name = some value →
    field.encoding.accepts value = true

theorem foldl_provide_eq_self {values : List (String × Value)} {fields : List Field}
    (filled : ∀ field ∈ fields, ∃ value, values.lookup field.name = some value ∧
      field.encoding.accepts value = true) : fields.foldl provide values = values := by
  induction fields with
  | nil => rfl
  | cons field fields ih =>
    rw [List.forall_mem_cons] at filled
    obtain ⟨⟨value, held, accepts⟩, others⟩ := filled
    have kept : provide values field = values := by simp [provide, held, accepts]
    rw [List.foldl_cons, kept, ih others]

variable {record : Record} {schema : Schema}

/-- **A second migration to the same schema changes nothing.** -/
theorem migrate_migrate (record : Record) (names : schema.names.Nodup)
    (typed : ∀ field ∈ schema.fields, field.encoding.accepts field.default = true) :
    (record.migrate schema).migrate schema = record.migrate schema := by
  refine congrArg (Record.mk schema) (foldl_provide_eq_self fun field member => ?_)
  exact ⟨_, lookup_foldl_provide record.values names member,
    Field.accepts_settle (typed field member) _⟩

theorem own?_of_get? {name : String} {value : Value} (found : record.get? name = some value) :
    record.own? name = some value := by
  rw [own?, found, Option.some_or]

/-- The value of a field that the new schema lacks is compared with the default. -/
theorem agreeOn_migrate_lacking (unique : record.schema.names.Nodup) {field : Field}
    (member : field ∈ record.schema.fields) {value : Value}
    (found : record.get? field.name = some value) (lacking : field.name ∉ schema.names) :
    AgreeOn field.name (record.migrate schema) record ↔
      field.default.sameContent value = true := by
  have none : (record.migrate schema).own? field.name = none := own?_eq_none_of_notMem lacking
  rw [AgreeOn, none, own?_of_get? found, Schema.default?_of_mem unique member]
  simp

/-- A value is replaced only if it is of another kind, and then by one that differs from it. -/
theorem agreeOn_migrate_common (names : schema.names.Nodup) {field : Field}
    (member : field ∈ schema.fields) (typed : field.encoding.accepts field.default = true)
    {value : Value} (found : record.get? field.name = some value) :
    AgreeOn field.name (record.migrate schema) record ↔ field.encoding.accepts value = true := by
  have taken := record.get?_migrate names member
  rw [AgreeOn, own?_of_get? taken, own?_of_get? found, lookup_of_get? found]
  constructor
  · intro agree
    rw [← field.encoding.accepts_of_sameContent agree, Field.accepts_settle typed]
  · intro accepts
    rw [Field.settle_of_accepts accepts]
    exact value.sameContent_self

/-- A field that is new has its default, which is also what counts for the record without it. -/
theorem agreeOn_migrate_fresh (exact : record.Exact) (names : schema.names.Nodup) {field : Field}
    (member : field ∈ schema.fields) (fresh : field.name ∉ record.schema.names) :
    AgreeOn field.name (record.migrate schema) record := by
  have absent : record.values.lookup field.name = none :=
    Option.eq_none_iff_forall_ne_some.mpr fun value held => fresh (exact.only _ value held)
  have taken := record.get?_migrate names member
  rw [absent, Field.settle] at taken
  rw [AgreeOn, own?_of_get? taken, own?_eq_none_of_notMem fresh]
  intro default given
  have same := given.symm.trans (Schema.default?_of_mem names member)
  rw [Option.some.inj same]
  exact Value.sameContent_self _

/-- The content stays the same just when nothing is dropped. -/
theorem sameContent_migrate (exact : record.Exact) (unique : record.schema.names.Nodup)
    (names : schema.names.Nodup)
    (typed : ∀ field ∈ schema.fields, field.encoding.accepts field.default = true) :
    (record.migrate schema).sameContent record = true ↔ record.DropsNothing schema := by
  rw [sameContent_iff_agreeOn]
  constructor
  · intro agree
    refine ⟨fun field member lacking => ?_, fun field member value found => ?_⟩
    · obtain ⟨value, found⟩ := exact.exists_get? member
      have same := (agreeOn_migrate_lacking unique member found lacking).mp (agree field.name)
      exact ⟨value, found, Value.sameContent_symm same⟩
    · exact (agreeOn_migrate_common names member (typed field member) found).mp (agree field.name)
  · rintro ⟨lacking, common⟩ name
    by_cases new : name ∈ schema.names
    · obtain ⟨field, member, rfl⟩ := List.mem_map.mp new
      by_cases old : field.name ∈ record.schema.names
      · obtain ⟨before, inOld, same⟩ := List.mem_map.mp old
        obtain ⟨value, found⟩ := exact.exists_get? inOld
        rw [same] at found
        exact (agreeOn_migrate_common names member (typed field member) found).mpr
          (common field member value found)
      · exact agreeOn_migrate_fresh exact names member old
    · by_cases old : name ∈ record.schema.names
      · obtain ⟨field, member, rfl⟩ := List.mem_map.mp old
        obtain ⟨value, found, same⟩ := lacking field member new
        exact (agreeOn_migrate_lacking unique member found new).mpr (Value.sameContent_symm same)
      · have none : (record.migrate schema).own? name = none := own?_eq_none_of_notMem new
        rw [AgreeOn, none, own?_eq_none_of_notMem old]
        trivial

end Record

namespace Entity

/-- **Migration changes content just when it drops something.** An entity that has a value for each
field of its schema, as all that are built have, and no other agrees with itself after migration if
and only if every field that the new schema lacks has its default and all other values are of the
kinds that the new schema takes. And migrating once more changes nothing. -/
theorem sameContent_migrate_iff (entity : Entity) (exact : entity.record.Exact)
    (unique : entity.record.schema.names.Nodup) {schema : Schema} (names : schema.names.Nodup)
    (typed : ∀ field ∈ schema.fields, field.encoding.accepts field.default = true) :
    ((⟨entity.kind, entity.record.migrate schema⟩ : Entity).sameContent entity = true ↔
      entity.record.DropsNothing schema) ∧
    (entity.record.migrate schema).migrate schema = entity.record.migrate schema := by
  refine ⟨?_, entity.record.migrate_migrate names typed⟩
  rw [sameContent_iff, Record.sameContent_migrate exact unique names typed]
  exact and_iff_right rfl

/-- Under Bitcoin's schema a transaction with a time says the same if the time is the default, and
something else if it has been set. -/
theorem sameContent_migrate_iff_timed :
    let timed := Preset.peercoin.layout.transaction
    let plain := Preset.bitcoinTransaction
    (⟨.transaction, (Record.new timed).migrate plain⟩ : Entity).sameContent
      ⟨.transaction, .new timed⟩ = true ∧
    ∃ tx, (Record.new timed).set "Timestamp" (.int 7) = .ok tx ∧
      ¬ (⟨.transaction, tx.migrate plain⟩ : Entity).sameContent ⟨.transaction, tx⟩ = true ∧
      (tx.migrate plain).migrate plain = tx.migrate plain := by
  intro timed plain
  have unique : timed.names.Nodup := by decide
  have names : plain.names.Nodup := by decide
  have typed : ∀ field ∈ plain.fields, field.encoding.accepts field.default = true := by decide
  have exact : (Record.new timed).Exact := Record.exact_new unique
  obtain ⟨tx, set, schema, seen⟩ :
      ∃ tx, (Record.new timed).set "Timestamp" (.int 7) = .ok tx ∧ tx.schema = timed ∧
        tx.get? "Timestamp" = some (.int 7) := ⟨_, rfl, rfl, rfl⟩
  obtain ⟨same, -⟩ := sameContent_migrate_iff ⟨.transaction, .new timed⟩ exact unique names typed
  obtain ⟨changed, twice⟩ := sameContent_migrate_iff ⟨.transaction, tx⟩ (exact.set set)
    (schema ▸ unique) names typed
  have hidden : Field.integer "Timestamp" true 4 0 ∈ tx.schema.fields := by
    simp [schema, timed, Preset.peercoin, Preset.ofTransaction, Preset.timedFields]
  have given {field : Field} (member : field ∈ timed.fields) :
      (Record.new timed).get? field.name = some field.default := by
    rw [Record.get?_of_mem _ (List.mem_map_of_mem member), Record.lookup_new unique member]
  have shared : ∀ field ∈ plain.fields, field ∈ timed.fields := by
    simp [plain, timed, Preset.bitcoinTransaction, Preset.peercoin, Preset.ofTransaction,
      Preset.timedFields]
  refine ⟨same.mpr ⟨fun field member _ => ?_, fun field member value found => ?_⟩, tx, set,
    fun kept => ?_, twice⟩
  · exact ⟨field.default, given member, Value.sameContent_self _⟩
  · cases (given (shared field member)).symm.trans found
    exact typed field member
  · obtain ⟨lacking, -⟩ := changed.mp kept
    obtain ⟨value, found, equal⟩ := lacking _ hidden (by decide)
    cases seen.symm.trans found
    exact absurd equal (by decide +kernel)

end Entity
end LedgerScript
