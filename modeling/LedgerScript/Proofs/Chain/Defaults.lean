import LedgerScript.Proofs.Chain.Reachable
import LedgerScript.Proofs.Ledger.Complete

/-!
What the defaults of a chain are written as.

A definition is accepted without a look at the range of its numbers: a default is held against the
kind and the length of its field, and only a writer holds it against the field's range.
-/
namespace LedgerScript

/-- The default is of the field's kind and length, and the width of a number is supported. -/
inductive Field.Settled : Field → Prop
  | integer (name : String) {format : IntegerFormat} (supported : format.Supported) (n : Int64) :
      Settled ⟨name, .integer format, none, .int n⟩
  | fixed (name : String) (b : Bytes) : Settled ⟨name, .bytes, some b.length, .bytes b⟩
  | counted (name : String) (b : Bytes) : Settled ⟨name, .bytes, none, .bytes b⟩
  | inputs (name : String) : Settled ⟨name, .inputs, none, .inputs []⟩
  | outputs (name : String) : Settled ⟨name, .outputs, none, .outputs []⟩
  | transactions (name : String) : Settled ⟨name, .transactions, none, .transactions []⟩

/-- All fields of the schema are settled. -/
def Schema.Settled (schema : Schema) : Prop := ∀ field ∈ schema.fields, field.Settled

/-- The number or the bytes that a definition may give as a default. -/
inductive Value.Scalar : Value → Prop
  | int (n : Int64) : Scalar (.int n)
  | bytes (b : Bytes) : Scalar (.bytes b)

/-- The widths that letters name are supported. -/
theorem Encoding.supported_of_ofLetter? {order : ByteOrder} {letter : Char}
    {format : IntegerFormat} (h : ofLetter? order letter = some (.integer format)) :
    format.Supported := by
  unfold ofLetter? at h
  split at h <;> cases h <;> simp [IntegerFormat.Supported]

theorem Encoding.supported_of_ofLetters? {letters : List Char} {format : IntegerFormat}
    (h : ofLetters? letters = some (.integer format)) : format.Supported := by
  unfold ofLetters? at h
  split at h
  · exact supported_of_ofLetter? h
  · split at h
    · exact supported_of_ofLetter? h
    · split at h
      · exact supported_of_ofLetter? h
      · cases h
  · cases h

theorem Encoding.supported_of_ofFormat {code : String} {format : IntegerFormat}
    (h : ofFormat code = .ok (.integer format)) : format.Supported := by
  unfold ofFormat at h
  iterate 4
    split at h
    · cases h
  split at h
  · next encoding found =>
    cases h
    exact supported_of_ofLetters? found
  · cases h

/-- A byte string that is made the default has the length that the field declares. -/
theorem Field.length_of_make {name : String} {encoding : Encoding} {n : Nat} {b : Bytes}
    {field : Field} (made : make name encoding (some n) (some (.bytes b)) = .ok field) :
    b.length = n := by
  unfold make at made
  grind

/-- A field made with a scalar default, or with none. Only byte strings have a declared length. -/
theorem Field.settled_of_make {name : String} {encoding : Encoding} {byteLength : Option Nat}
    {default : Option Value} {field : Field} (scalar : ∀ value ∈ default, value.Scalar)
    (supported : ∀ format, encoding = .integer format → format.Supported)
    (sized : encoding ≠ .bytes → byteLength = none)
    (made : make name encoding byteLength default = .ok field) : field.Settled := by
  obtain ⟨accepts, rfl⟩ := make_eq_ok made
  cases default with
  | none =>
    cases encoding with
    | integer format =>
      cases sized nofun
      exact .integer name (supported format rfl) 0
    | bytes =>
      cases byteLength with
      | none => exact .counted name _
      | some n =>
        have own := Settled.fixed name (List.replicate n 0)
        rwa [List.length_replicate] at own
    | inputs =>
      cases sized nofun
      exact .inputs name
    | outputs =>
      cases sized nofun
      exact .outputs name
    | transactions =>
      cases sized nofun
      exact .transactions name
  | some value =>
    cases scalar value rfl with
    | int n =>
      cases encoding <;> cases accepts
      cases sized nofun
      exact .integer name (supported _ rfl) n
    | bytes b =>
      cases encoding <;> cases accepts
      cases byteLength with
      | none => exact .counted name b
      | some n =>
        cases length_of_make made
        exact .fixed name b

namespace FieldDefinition

theorem scalar_of_defaultValue {definition : FieldDefinition} {default : Option Value}
    (read : definition.defaultValue = .ok default) : ∀ value ∈ default, value.Scalar := by
  intro value member
  cases member
  unfold defaultValue at read
  split at read
  · cases read
  · split at read
    · cases read
      exact .int _
    · cases read
  · cases read
  · split at read
    · cases read
      exact .bytes _
    · cases read
  · cases read
  · cases read

theorem field_settled {definition : FieldDefinition} {field : Field}
    (made : definition.field = .ok field) : field.Settled := by
  obtain ⟨default, read, made⟩ := Fallible.bind_eq_ok_iff.mp made
  have scalar := scalar_of_defaultValue read
  unfold Field.ofFormat at made
  obtain ⟨encoding, named, made⟩ := Fallible.bind_eq_ok_iff.mp made
  have supported (format : IntegerFormat) (own : encoding = .integer format) : format.Supported :=
    Encoding.supported_of_ofFormat (own ▸ named)
  split at made
  · split at made
    · exact Field.settled_of_make scalar supported (fun _ => rfl) made
    · cases made
  · exact Field.settled_of_make scalar supported (fun other => absurd rfl other) made
  · exact Field.settled_of_make scalar supported (fun _ => rfl) made

theorem schema_settled {definitions : List FieldDefinition} {schema : Schema}
    (made : FieldDefinition.schema definitions = .ok schema) : schema.Settled := by
  obtain ⟨fields, each, made⟩ := Fallible.bind_eq_ok_iff.mp made
  obtain ⟨rfl, -⟩ := Schema.ofFields_eq_ok_iff.mp made
  exact Fallible.forall_mem_of_mapM (fun _ _ => field_settled) each

end FieldDefinition

theorem PresetDefinition.schemaOr_settled {standard schema : Schema} (settled : standard.Settled)
    {definitions : Option (List FieldDefinition)}
    (made : schemaOr standard definitions = .ok schema) : schema.Settled := by
  cases definitions with
  | none =>
    cases made
    exact settled
  | some list => exact FieldDefinition.schema_settled made

theorem Preset.bitcoinHeader_settled : Preset.bitcoinHeader.Settled := by
  simp only [Schema.Settled, bitcoinHeader, List.forall_mem_cons, List.not_mem_nil, false_imp_iff,
    implies_true, and_true]
  have number (name : String) (signed : Bool) (n : Int64) :
      (Field.integer name signed 4 n).Settled :=
    .integer name (by simp [IntegerFormat.Supported]) n
  have hash (name : String) : (Field.hash name).Settled := .fixed name (List.replicate 32 0)
  exact ⟨number _ _ _, hash _, hash _, number _ _ _, number _ _ _, number _ _ _⟩

theorem Preset.bitcoinBody_settled : Preset.bitcoinBody.Settled :=
  List.forall_mem_singleton.mpr (.transactions "vtx")

theorem PresetDefinition.preset_settled {definition : PresetDefinition} {preset : Preset}
    (made : definition.preset = .ok preset) (kind : Kind) :
    (preset.layout.schema kind).Settled := by
  obtain ⟨transaction, fields, made⟩ := Fallible.bind_eq_ok_iff.mp made
  obtain ⟨header, headerFields, made⟩ := Fallible.bind_eq_ok_iff.mp made
  obtain ⟨body, bodyFields, made⟩ := Fallible.bind_eq_ok_iff.mp made
  obtain ⟨overrides, -, made⟩ := Fallible.bind_eq_ok_iff.mp made
  cases made
  cases kind with
  | transaction => exact FieldDefinition.schema_settled fields
  | blockHeader => exact schemaOr_settled Preset.bitcoinHeader_settled headerFields
  | blockBody => exact schemaOr_settled Preset.bitcoinBody_settled bodyFields

/-- The number that stands as the default of an integer is in the range of its format. -/
def Field.DefaultFits (field : Field) : Prop :=
  ∀ format n, field.encoding = .integer format → field.default = .int n → format.Fits n.toInt

/-- The complaint of a writer about a default that is out of range. -/
def Field.overflow? (field : Field) : Option Error :=
  match field.encoding, field.default with
  | .integer format, .int n =>
    if format.Fits n.toInt then none else some (.overflow field.name n.toInt format.width)
  | _, _ => none

theorem Field.overflow?_eq_none_iff {field : Field} :
    field.overflow? = none ↔ field.DefaultFits := by
  unfold overflow? DefaultFits
  split <;> grind

/-- Acceptance leaves a writer nothing to complain about but the range of a number. -/
theorem Field.Settled.fault_write {field : Field} (settled : field.Settled) :
    (field.default.write field).fault = field.overflow? := by
  cases settled with
  | @integer name format supported n =>
    simp only [Value.write, IntegerFormat.write, if_pos supported, overflow?]
    split <;> rfl
  | fixed name b => simp [Value.write, overflow?, Written.ofBytes]
  | counted name b => rfl
  | inputs name => rfl
  | outputs name => rfl
  | transactions name => rfl

theorem Schema.Settled.fault_write_new {schema : Schema} (settled : schema.Settled)
    (accepted : schema.Accepted) :
    (Record.new schema).write.fault = schema.fields.findSome? Field.overflow? := by
  have unique : schema.names.Nodup := Schema.accepted_iff.mp accepted
  have each : schema.fields.map (fun field => ((Record.new schema).writeField field).fault) =
      schema.fields.map Field.overflow? := by
    refine List.map_congr_left fun field member => ?_
    rw [Record.writeField, Record.lookup_new unique member]
    exact (settled field member).fault_write
  calc (Record.new schema).write.fault
      = (schema.fields.map fun field =>
          ((Record.new schema).writeField field).fault).findSome? id := by
        rw [Record.fault_write, List.findSome?_map]
        rfl
    _ = schema.fields.findSome? Field.overflow? := by
        rw [each, List.findSome?_map]
        rfl

/-- **What the defaults of an accepted definition are written as**: of the transaction, the header
and the body alike, they are written exactly when every number among them is in the range of its
field; otherwise the first that is not is named. -/
theorem PresetDefinition.toBytes_new {definition : PresetDefinition} {preset : Preset}
    (made : definition.preset = .ok preset) (kind : Kind) :
    let fresh := Record.new (preset.layout.schema kind)
    ((∃ b, fresh.toBytes = .ok b) ↔ ∀ field ∈ fresh.schema.fields, field.DefaultFits) ∧
      ∀ e, fresh.toBytes = .error e ↔ fresh.schema.fields.findSome? Field.overflow? = some e := by
  intro fresh
  have settled := preset_settled made kind
  have fault : fresh.write.fault = fresh.schema.fields.findSome? Field.overflow? :=
    settled.fault_write_new (preset_accepted made kind)
  constructor
  · simp only [Record.toBytes, Written.exists_toExcept_eq_ok_iff, fault,
      List.findSome?_eq_none_iff, Field.overflow?_eq_none_iff]
  · intro e
    rw [Record.toBytes, Written.toExcept_eq_error_iff, fault]

namespace PresetDefinition

/-- A chain in Bitcoin's blocks whose transactions are a number of two bytes, from which it counts,
and a tag. -/
def counting (first : Int) : PresetDefinition where
  name := "Counting"
  transaction := [⟨"n", "<H", none, .integer first⟩, ⟨"tag", "bytes", some 2, .text "abcd"⟩]
  blockHeader := none
  blockBody := none
  overrides := []

/-- The chain that is registered for it. -/
def counted (first : Int64) : Preset :=
  .ofTransaction "Counting"
    ⟨[⟨"n", .integer ⟨.little, false, 2⟩, none, .int first⟩,
      ⟨"tag", .bytes, some 2, .bytes [0xab, 0xcd]⟩]⟩

theorem toBytes_new_counting :
    (counting 300).preset = .ok (counted 300) ∧
      ∀ kind, ∃ b, (Record.new ((counted 300).layout.schema kind)).toBytes = .ok b := by
  have made : (counting 300).preset = .ok (counted 300) := rfl
  refine ⟨made, fun kind => (toBytes_new made kind).1.mpr fun field member => ?_⟩
  rw [← Field.overflow?_eq_none_iff]
  revert field
  cases kind <;> decide

/-- A definition that is accepted, though its default transaction cannot be written. -/
theorem toBytes_new_unfit :
    (counting (-1)).preset = .ok (counted (-1)) ∧
      (Record.new ((counted (-1)).layout.schema .transaction)).toBytes =
        .error (.overflow "n" (-1) 2) :=
  ⟨rfl, rfl⟩

end PresetDefinition
end LedgerScript
