import LedgerScript.Ledger.Record

namespace LedgerScript

mutual

/-- Writes a value as a field says. -/
def Value.write : Value → Field → Written
  | .int n, field =>
    match field.encoding with
    | .integer format => format.write field.name n
    | _ => .stop (.typeMismatch field.name field.encoding.describe)
  | .bytes b, field =>
    match field.encoding with
    | .bytes =>
      match field.byteLength with
      | none => .ofBytes (CompactSize.encodeBytes b)
      | some n =>
        if b.length = n then .ofBytes b else .stop (.lengthMismatch field.name n b.length)
    | _ => .stop (.typeMismatch field.name field.encoding.describe)
  | .inputs list, field =>
    match field.encoding with
    | .inputs => .ofBytes (CompactSize.encode list.length ++ list.flatMap Input.encode)
    | _ => .stop (.typeMismatch field.name field.encoding.describe)
  | .outputs list, field =>
    match field.encoding with
    | .outputs => .ofBytes (CompactSize.encode list.length ++ list.flatMap Output.encode)
    | _ => .stop (.typeMismatch field.name field.encoding.describe)
  | .transactions list, field =>
    match field.encoding with
    | .transactions => .ofBytes (CompactSize.encode list.length) ++ writeRecords list
    | _ => .stop (.typeMismatch field.name field.encoding.describe)

/-- Writes the fields of a record. -/
def Record.write : Record → Written
  | ⟨schema, values⟩ =>
    let writers := writersOf values
    .concat (schema.fields.map fun field =>
      match writers.lookup field.name with
      | none => .stop (.unknownField field.name)
      | some writer => writer field)

/-- Writes one record after another. -/
def writeRecords : List Record → Written
  | [] => .ofBytes []
  | r :: rest => r.write ++ writeRecords rest

/-- How each value is written. -/
def writersOf : List (String × Value) → List (String × (Field → Written))
  | [] => []
  | (name, value) :: rest => (name, value.write) :: writersOf rest

end

theorem lookup_writersOf (values : List (String × Value)) (name : String) :
    (writersOf values).lookup name = (values.lookup name).map Value.write := by
  induction values with
  | nil => simp [writersOf]
  | cons p rest ih =>
    obtain ⟨n, v⟩ := p
    simp only [writersOf, List.lookup_cons]
    split <;> simp_all

/-- What a record writes for one of its fields. -/
def Record.writeField (record : Record) (field : Field) : Written :=
  match record.values.lookup field.name with
  | none => .stop (.unknownField field.name)
  | some value => value.write field

theorem Record.write_eq (record : Record) :
    record.write = .concat (record.schema.fields.map record.writeField) := by
  obtain ⟨schema, values⟩ := record
  simp only [Record.write, lookup_writersOf]
  congr 2
  funext field
  simp only [Record.writeField]
  cases values.lookup field.name <;> rfl

theorem writeRecords_eq (list : List Record) :
    writeRecords list = .concat (list.map Record.write) := by
  induction list with
  | nil => simp [writeRecords]
  | cons r rest ih => simp [writeRecords, ih]

/-- The bytes of a record, or the fault that stopped its writing. -/
def Record.toBytes (record : Record) : Except Error Bytes := record.write.toExcept

end LedgerScript
