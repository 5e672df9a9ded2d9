import LedgerScript.Proofs.Ledger.Complete
import LedgerScript.Proofs.Ledger.Size
import LedgerScript.Proofs.Wire.Integer

namespace LedgerScript

namespace Encoding

variable {encoding : Encoding}

theorem accepts_int_iff {n : Int64} :
    encoding.accepts (.int n) = true ↔ ∃ format, encoding = .integer format := by
  cases encoding <;> simp [accepts]

theorem accepts_bytes_iff {b : Bytes} :
    encoding.accepts (.bytes b) = true ↔ encoding = .bytes := by
  cases encoding <;> simp [accepts]

theorem accepts_transactions_iff {list : List Record} :
    encoding.accepts (.transactions list) = true ↔ encoding = .transactions := by
  cases encoding <;> simp [accepts]

end Encoding

/-- Every number is in the range of its format, every byte string of declared length has that
length, and the transactions in the record are encodable too. -/
inductive Record.Encodable : Record → Prop
  | intro {record : Record}
      (numbers : ∀ field ∈ record.schema.fields, ∀ format n, field.encoding = .integer format →
        record.get? field.name = some (.int n) → format.Supported ∧ format.InRange n.toInt)
      (lengths : ∀ field ∈ record.schema.fields, ∀ n b, field.encoding = .bytes →
        field.byteLength = some n → record.get? field.name = some (.bytes b) → b.length = n)
      (nested : ∀ field ∈ record.schema.fields, ∀ list,
        record.get? field.name = some (.transactions list) → ∀ tx ∈ list, Encodable tx) :
      Encodable record

/-- Nothing keeps the field from being written with the value. `Record.encodable_iff` says that a
record is encodable when this holds of each field. -/
structure Field.Admits (field : Field) (value : Value) : Prop where
  number : ∀ format n, field.encoding = .integer format → value = .int n →
    format.Supported ∧ format.InRange n.toInt
  length : ∀ n b, field.encoding = .bytes → field.byteLength = some n → value = .bytes b →
    b.length = n
  transactions : value.All Record.Encodable

/-- What a field says of a value that it does not admit. -/
inductive Field.Refuses (field : Field) : Value → Error → Prop
  | width {format : IntegerFormat} {n : Int64} (encoding : field.encoding = .integer format)
      (unsupported : ¬ format.Supported) :
      Refuses field (.int n) (.unsupportedEncoding (.integerWidth field.name format.width))
  | range {format : IntegerFormat} {n : Int64} (encoding : field.encoding = .integer format)
      (supported : format.Supported) (outside : ¬ format.InRange n.toInt) :
      Refuses field (.int n) (.overflow field.name n.toInt format.width)
  | length {n : Nat} {b : Bytes} (encoding : field.encoding = .bytes)
      (declared : field.byteLength = some n) (differs : b.length ≠ n) :
      Refuses field (.bytes b) (.lengthMismatch field.name n b.length)

/-- The field admits the value that the record has for it. -/
def Record.CanWrite (record : Record) (field : Field) : Prop :=
  ∀ value, record.get? field.name = some value → field.Admits value

/-- The first thing in the order of the wire that a record cannot be written with: the value of a
field, or the first fault of a transaction in it. Whatever comes before can be written. -/
inductive Record.FirstFault : Record → Error → Prop
  | value {record : Record} {before after : List Field} {field : Field} {value : Value} {e : Error}
      (order : record.schema.fields = before ++ field :: after)
      (earlier : ∀ f ∈ before, record.CanWrite f) (held : record.get? field.name = some value)
      (refused : field.Refuses value e) : FirstFault record e
  | transaction {record tx : Record} {before after : List Field} {field : Field}
      {first rest : List Record} {e : Error}
      (order : record.schema.fields = before ++ field :: after)
      (earlier : ∀ f ∈ before, record.CanWrite f)
      (held : record.get? field.name = some (.transactions (first ++ tx :: rest)))
      (encodable : ∀ t ∈ first, t.Encodable) (fault : FirstFault tx e) : FirstFault record e

theorem Record.encodable_iff {record : Record} :
    record.Encodable ↔ ∀ field ∈ record.schema.fields, record.CanWrite field := by
  constructor
  · rintro ⟨numbers, lengths, nested⟩ field member value found
    refine ⟨fun format n encoding same => ?_, fun n b encoding declared same => ?_,
      fun list same => ?_⟩
    · exact numbers field member format n encoding (same ▸ found)
    · exact lengths field member n b encoding declared (same ▸ found)
    · exact nested field member list (same ▸ found)
  · intro each
    refine .intro (fun field member format n encoding found => ?_)
      (fun field member n b encoding declared found => ?_) fun field member list found => ?_
    · exact (each field member _ found).number format n encoding rfl
    · exact (each field member _ found).length n b encoding declared rfl
    · exact (each field member _ found).transactions list rfl

/-- A value of the right kind is refused if it is not admitted, unless it is for a transaction. -/
theorem Field.refuses_of_not_admits {field : Field} {value : Value}
    (accepts : field.encoding.accepts value = true) (not : ¬ field.Admits value) :
    (∃ e, field.Refuses value e) ∨
      ∃ list, value = .transactions list ∧ ¬ ∀ tx ∈ list, tx.Encodable := by
  cases value with
  | int n =>
    obtain ⟨format, encoding⟩ := Encoding.accepts_int_iff.mp accepts
    by_cases supported : format.Supported
    · by_cases inRange : format.InRange n.toInt
      · refine absurd ⟨fun own m same held => ?_, nofun, nofun⟩ not
        cases encoding.symm.trans same
        cases held
        exact ⟨supported, inRange⟩
      · exact .inl ⟨_, .range encoding supported inRange⟩
    · exact .inl ⟨_, .width encoding supported⟩
  | bytes b =>
    have encoding := Encoding.accepts_bytes_iff.mp accepts
    cases declared : field.byteLength with
    | none =>
      refine absurd ⟨nofun, fun n _ _ given _ => ?_, nofun⟩ not
      cases declared.symm.trans given
    | some n =>
      by_cases length : b.length = n
      · refine absurd ⟨nofun, fun m c _ given held => ?_, nofun⟩ not
        cases declared.symm.trans given
        cases held
        exact length
      · exact .inl ⟨_, .length encoding declared length⟩
  | inputs list | outputs list => exact absurd ⟨nofun, nofun, nofun⟩ not
  | transactions list =>
    refine .inr ⟨list, rfl, fun each => not ⟨nofun, nofun, ?_⟩⟩
    rintro _ ⟨⟩
    exact each

namespace Record

/-- **A complete record is encodable or has a first fault.** -/
theorem Complete.encodable_or_firstFault {record : Record} (complete : record.Complete) :
    record.Encodable ∨ ∃ e, record.FirstFault e := by
  induction complete with
  | @intro record filled nested ih =>
    by_cases all : ∀ field ∈ record.schema.fields, record.CanWrite field
    · exact .inl (encodable_iff.mpr all)
    · obtain ⟨before, field, after, order, earlier, fails⟩ := Fallible.exists_first all
      have member : field ∈ record.schema.fields := by simp [order]
      obtain ⟨value, held, accepts⟩ := filled field member
      have not : ¬ field.Admits value := fun admits => fails fun other found => by
        cases held.symm.trans found
        exact admits
      obtain ⟨e, refused⟩ | ⟨list, rfl, others⟩ := Field.refuses_of_not_admits accepts not
      · exact .inr ⟨e, .value order earlier held refused⟩
      · obtain ⟨first, tx, rest, rfl, encodable, fails⟩ := Fallible.exists_first others
        have inList : tx ∈ first ++ tx :: rest := by simp
        obtain ⟨e, fault⟩ := (ih field.name _ (lookup_of_get? held) tx inList).resolve_left fails
        exact .inr ⟨e, .transaction order earlier held encodable fault⟩

end Record

theorem Record.writeField_of_get? {record : Record} {field : Field} {value : Value}
    (held : record.get? field.name = some value) : record.writeField field = value.write field := by
  rw [writeField, lookup_of_get? held]

theorem Value.fault_write_transactions {list : List Record} {field : Field}
    (accepts : field.encoding.accepts (.transactions list) = true) :
    ((Value.transactions list).write field).fault = (writeRecords list).fault := by
  simp only [Value.write, Encoding.accepts_transactions_iff.mp accepts]
  rfl

/-- What a field admits is written if the transactions in it are. -/
theorem Field.Admits.write {field : Field} {value : Value} (admits : field.Admits value)
    (accepts : field.encoding.accepts value = true)
    (nested : value.All fun tx => tx.write.fault = none) : (value.write field).fault = none := by
  cases value with
  | int n =>
    obtain ⟨format, encoding⟩ := Encoding.accepts_int_iff.mp accepts
    obtain ⟨supported, inRange⟩ := admits.number format n encoding rfl
    have fits := (IntegerFormat.fits_iff supported).mpr inRange
    simp only [Value.write, encoding,
      IntegerFormat.write_eq_ofBytes_iff.mpr ⟨supported, fits, rfl⟩, Written.ofBytes]
  | bytes b =>
    have encoding := Encoding.accepts_bytes_iff.mp accepts
    simp only [Value.write, encoding]
    split
    · rfl
    · next n declared =>
      rw [if_pos (admits.length n b encoding declared rfl)]
      rfl
  | inputs list | outputs list =>
    cases encoding : field.encoding <;> rw [encoding] at accepts <;> cases accepts
    simp only [Value.write, encoding, Written.ofBytes]
  | transactions list =>
    rw [Value.fault_write_transactions accepts, fault_writeRecords, List.findSome?_eq_none_iff]
    exact nested list rfl

theorem Field.Refuses.write {field : Field} {value : Value} {e : Error}
    (refused : field.Refuses value e) : (value.write field).fault = some e := by
  cases refused with
  | width encoding unsupported =>
    simp only [Value.write, encoding, IntegerFormat.write, if_neg unsupported]
    rfl
  | range encoding supported outside =>
    have unfit := mt (IntegerFormat.fits_iff supported).mp outside
    simp only [Value.write, encoding, IntegerFormat.write, if_pos supported, if_neg unfit]
    rfl
  | length encoding declared differs =>
    simp only [Value.write, encoding, declared, if_neg differs]
    rfl

namespace Record

/-- A field that the record can write does not stop the writer if encodable transactions do not. -/
theorem CanWrite.write {record : Record} {field : Field} (canWrite : record.CanWrite field)
    (filled : ∃ value, record.get? field.name = some value ∧ field.encoding.accepts value = true)
    (nested : ∀ name list, record.values.lookup name = some (.transactions list) →
      ∀ tx ∈ list, tx.Encodable → tx.write.fault = none) :
    (record.writeField field).fault = none := by
  obtain ⟨value, held, accepts⟩ := filled
  have admits := canWrite value held
  rw [writeField_of_get? held]
  refine admits.write accepts fun list same tx inList => ?_
  exact nested field.name list (same ▸ lookup_of_get? held) tx inList
    (admits.transactions list same tx inList)

/-- An encodable record is written. -/
theorem Encodable.write {record : Record} (encodable : record.Encodable)
    (complete : record.Complete) : record.write.fault = none := by
  induction complete with
  | @intro record filled nested ih =>
    rw [fault_write, List.findSome?_eq_none_iff]
    intro field member
    exact (encodable_iff.mp encodable field member).write (filled field member) ih

/-- A field stops the writer if the fields before it can be written. -/
theorem fault_write_of_order {record : Record} (complete : record.Complete)
    {before after : List Field} {field : Field}
    (order : record.schema.fields = before ++ field :: after)
    (earlier : ∀ f ∈ before, record.CanWrite f) {e : Error}
    (stops : (record.writeField field).fault = some e) : record.write.fault = some e := by
  obtain ⟨filled, nested⟩ := complete
  rw [fault_write, List.findSome?_eq_some_iff]
  refine ⟨before, field, after, order, stops, fun f member => ?_⟩
  exact (earlier f member).write (filled f (by simp [order, member]))
    fun name list held tx inList encodable => encodable.write (nested name list held tx inList)

/-- The first fault stops the writer. -/
theorem FirstFault.write {record : Record} {e : Error} (fault : record.FirstFault e)
    (complete : record.Complete) : record.write.fault = some e := by
  induction fault with
  | value order earlier held refused =>
    refine fault_write_of_order complete order earlier ?_
    rw [writeField_of_get? held, refused.write]
  | @transaction record tx before after field first rest e order earlier held encodable fault ih =>
    refine fault_write_of_order complete order earlier ?_
    obtain ⟨filled, nested⟩ := complete
    have inner := nested field.name _ (lookup_of_get? held)
    obtain ⟨value, found, accepts⟩ := filled field (by simp [order])
    cases held.symm.trans found
    rw [writeField_of_get? held, Value.fault_write_transactions accepts, fault_writeRecords,
      List.findSome?_eq_some_iff]
    exact ⟨first, tx, rest, rfl, ih (inner tx (by simp)), fun t member =>
      (encodable t member).write (inner t (by simp [member]))⟩

/-- What is read is no shorter than its schema announces. -/
theorem minLength_le_of_ofBytes {schema : Schema} {bytes : Bytes} {tx : Record}
    (read : ofBytes schema bytes = .ok tx) : schema.minLength ≤ bytes.length := by
  have taken := schema.read_takes schema (Decoder.whole_eq_ok_iff.mp read)
  rwa [List.length_nil, Nat.zero_add] at taken

/-- **What can be written**: a complete record, as all that are built are, is written exactly when
it is encodable. It then takes as many bytes as its fields do together, and no fewer than its schema
announces; otherwise the writer names its first fault. And nothing that is shorter than its schema
announces is read. -/
theorem toBytes_iff_encodable {record : Record} (complete : record.Complete) :
    ((∃ b, record.toBytes = .ok b) ↔ record.Encodable) ∧
    (∀ b, record.toBytes = .ok b → b.length = (record.schema.fields.map record.fieldSize).sum ∧
      record.schema.minLength ≤ b.length) ∧
    (∀ e, record.toBytes = .error e ↔ record.FirstFault e) ∧
    ∀ schema bytes tx, ofBytes schema bytes = .ok tx → schema.minLength ≤ bytes.length := by
  have either := complete.encodable_or_firstFault
  refine ⟨⟨fun written => ?_, fun encodable => ?_⟩, fun b done => ?_, fun e => ⟨fun failed => ?_,
    fun fault => ?_⟩, fun schema bytes tx => minLength_le_of_ofBytes⟩
  · have clean := Written.exists_toExcept_eq_ok_iff.mp written
    refine either.resolve_right fun ⟨e, fault⟩ => ?_
    cases clean.symm.trans (fault.write complete)
  · exact Written.exists_toExcept_eq_ok_iff.mpr (encodable.write complete)
  · have written := Written.toExcept_eq_ok_iff.mp done
    exact ⟨(length_of_write written).trans record.size_eq, minLength_le written⟩
  · have stopped := Written.toExcept_eq_error_iff.mp failed
    obtain encodable | ⟨first, fault⟩ := either
    · cases stopped.symm.trans (encodable.write complete)
    · cases stopped.symm.trans (fault.write complete)
      exact fault
  · exact Written.toExcept_eq_error_iff.mpr (fault.write complete)

/-- A transaction of defaults is written; a bundle of it and of one whose number needs three bytes
is refused for that number. -/
theorem toBytes_iff_encodable_bundle :
    let plain := Record.new .nesting
    plain.Complete ∧ plain.Encodable ∧ (∃ b, plain.toBytes = .ok b ∧ b.length = 4) ∧
    ∃ large bundle, plain.set "n" (.int 40000) = .ok large ∧
      plain.set "inner" (.transactions [plain, large]) = .ok bundle ∧ bundle.Complete ∧
      bundle.FirstFault (.overflow "n" 40000 2) ∧ ¬ bundle.Encodable := by
  intro plain
  have schema : Schema.nesting.Sound := by
    refine ⟨by decide, ?_⟩
    simp only [Schema.nesting, List.forall_mem_cons, List.not_mem_nil, false_imp_iff, implies_true,
      and_true]
    refine ⟨⟨rfl, nofun⟩, ⟨rfl, nofun⟩, rfl, ?_⟩
    rintro _ ⟨⟩
    exact nofun
  have sound : plain.Sound := schema.new
  obtain ⟨large, bundle, number, inner, failed⟩ :
      ∃ large bundle, plain.set "n" (.int 40000) = .ok large ∧
        plain.set "inner" (.transactions [plain, large]) = .ok bundle ∧
        bundle.toBytes = .error (.overflow "n" 40000 2) := ⟨_, _, rfl, rfl, rfl⟩
  have scalar : (Value.int 40000).All Record.Sound := nofun
  have soundLarge : large.Sound := sound.set scalar number
  have soundBundle : bundle.Sound := by
    refine sound.set ?_ inner
    rintro _ ⟨⟩
    simp [sound, soundLarge]
  have written : plain.toBytes = .ok [0, 0, 0, 0] := rfl
  obtain ⟨encodable, length, -, -⟩ := toBytes_iff_encodable sound.complete
  obtain ⟨refused, -, fault, -⟩ := toBytes_iff_encodable soundBundle.complete
  refine ⟨sound.complete, encodable.mp ⟨_, written⟩, ⟨_, written, (length _ written).1⟩, large,
    bundle, number, inner, soundBundle.complete, (fault _).mp failed, fun clean => ?_⟩
  obtain ⟨b, done⟩ := refused.mpr clean
  cases failed.symm.trans done

end Record
end LedgerScript
