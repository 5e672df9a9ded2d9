import LedgerScript.Assoc
import LedgerScript.Ledger.Encoding
import LedgerScript.Ledger.Transfer

/-!
Records: values for the fields of a schema.

A schema is an ordered list of fields; the order is the order on the wire. A record keeps the
schema it was made with and a value for each name. It may also hold values for names that its
schema lacks: those lie dormant, and take part in nothing until the schema has them again.

Values, schemas and records are defined together, since a value may be a list of transactions and
a field has a default value.
-/
namespace LedgerScript

mutual

inductive Value where
  | int (n : Int64)
  | bytes (b : Bytes)
  | inputs (list : List Input)
  | outputs (list : List Output)
  | transactions (list : List Record)

structure Field where
  name : String
  encoding : Encoding
  /-- The fixed length of a byte string. -/
  byteLength : Option Nat
  default : Value

structure Schema where
  fields : List Field

structure Record where
  schema : Schema
  values : List (String × Value)

end

namespace Value

def kindName : Value → String
  | .int _ => "integer"
  | .bytes _ => "bytes"
  | .inputs _ => "inputs"
  | .outputs _ => "outputs"
  | .transactions _ => "transactions"

def asInt? : Value → Option Int64
  | .int n => some n
  | _ => none

def asBytes? : Value → Option Bytes
  | .bytes b => some b
  | _ => none

def asInputs? : Value → Option (List Input)
  | .inputs list => some list
  | _ => none

def asOutputs? : Value → Option (List Output)
  | .outputs list => some list
  | _ => none

def asTransactions? : Value → Option (List Record)
  | .transactions list => some list
  | _ => none

end Value

namespace Encoding

/-- Whether a value is of the kind that the encoding reads and writes. -/
def accepts : Encoding → Value → Bool
  | .integer _, .int _ => true
  | .bytes, .bytes _ => true
  | .inputs, .inputs _ => true
  | .outputs, .outputs _ => true
  | .transactions, .transactions _ => true
  | _, _ => false

/-- The value of a field that declares no default. -/
def emptyValue (encoding : Encoding) (byteLength : Option Nat) : Value :=
  match encoding with
  | .integer _ => .int 0
  | .bytes => .bytes (List.replicate (byteLength.getD 0) 0)
  | .inputs => .inputs []
  | .outputs => .outputs []
  | .transactions => .transactions []

end Encoding

namespace Field

/-- A field whose default, if given, is of the right kind and length. -/
def make (name : String) (encoding : Encoding) (byteLength : Option Nat)
    (default : Option Value) : Except Error Field :=
  let value := default.getD (encoding.emptyValue byteLength)
  if encoding.accepts value then
    match value, byteLength with
    | .bytes b, some n =>
      if b.length = n then .ok ⟨name, encoding, byteLength, value⟩
      else .error (.lengthMismatch name n b.length)
    | _, _ => .ok ⟨name, encoding, byteLength, value⟩
  else .error (.typeMismatch name encoding.describe)

/-- A field from a format code. A declared size must be that of the integer; other fields than
byte strings have no fixed length. -/
def ofFormat (name format : String) (size : Option Nat) (default : Option Value) :
    Except Error Field := do
  let encoding ← Encoding.ofFormat format
  match encoding, size with
  | .integer i, some n =>
    if n = i.width then make name encoding none default
    else .error (.unsupportedEncoding (.widthDisagrees format i.width n))
  | .bytes, _ => make name encoding size default
  | _, _ => make name encoding none default

/-- The fewest bytes that the field takes on the wire. -/
def minLength (field : Field) : Nat :=
  match field.encoding, field.byteLength with
  | .integer format, _ => format.width
  | .bytes, some n => n
  | _, _ => 1

end Field

namespace Schema

def names (schema : Schema) : List String := schema.fields.map Field.name

/-- The first name that stands twice, given the names already seen. -/
def firstRepeat (seen : List String) : List String → Option String
  | [] => none
  | name :: rest => if name ∈ seen then some name else firstRepeat (name :: seen) rest

/-- A schema, if no name stands twice. -/
def ofFields (fields : List Field) : Except Error Schema :=
  match firstRepeat [] (fields.map Field.name) with
  | some name => .error (.duplicateField name)
  | none => .ok ⟨fields⟩

def field? (schema : Schema) (name : String) : Option Field :=
  schema.fields.find? (·.name = name)

def contains (schema : Schema) (name : String) : Bool := (schema.field? name).isSome

/-- The first field of an encoding. -/
def fieldWith? (schema : Schema) (encoding : Encoding) : Option Field :=
  schema.fields.find? (·.encoding = encoding)

/-- The fewest bytes that a record of the schema takes on the wire. -/
def minLength (schema : Schema) : Nat := schema.fields.foldr (·.minLength + ·) 0

theorem firstRepeat_eq_none_iff (seen names : List String) :
    firstRepeat seen names = none ↔ names.Nodup ∧ ∀ name ∈ names, name ∉ seen := by
  induction names generalizing seen with
  | nil => simp [firstRepeat]
  | cons name rest ih =>
    simp only [firstRepeat]
    split
    · next h => simp [h]
    · next h =>
      simp only [ih, List.nodup_cons, List.mem_cons]
      grind

theorem ofFields_eq_ok_iff {fields : List Field} {schema : Schema} :
    ofFields fields = .ok schema ↔ schema = ⟨fields⟩ ∧ (fields.map Field.name).Nodup := by
  have unique := firstRepeat_eq_none_iff [] (fields.map Field.name)
  unfold ofFields
  split <;> grind

end Schema

namespace Record

/-- The record of a schema's defaults. -/
def new (schema : Schema) : Record := ⟨schema, schema.fields.map fun f => (f.name, f.default)⟩

/-- The value of a field of the schema. -/
def get? (record : Record) (name : String) : Option Value :=
  if record.schema.contains name then record.values.lookup name else none

/-- Replaces the value of a field of the schema by one of its kind. -/
def set (record : Record) (name : String) (value : Value) : Except Error Record :=
  match record.schema.field? name with
  | none => .error (.unknownField name)
  | some field =>
    if field.encoding.accepts value then
      .ok { record with values := Assoc.put name value record.values }
    else .error (.typeMismatch name field.encoding.describe)

/-- Replaces values one after another. -/
def setAll (record : Record) (values : List (String × Value)) : Except Error Record :=
  values.foldlM (fun r (name, value) => r.set name value) record

/-- The record of the given values, with defaults for the rest. -/
def withValues (schema : Schema) (values : List (String × Value)) : Except Error Record :=
  (new schema).setAll values

/-- Names and values in the order of the wire. -/
def fields (record : Record) : List (String × Value) :=
  record.schema.fields.filterMap fun f => (record.values.lookup f.name).map (f.name, ·)

def getInt? (record : Record) (name : String) : Option Int64 := (record.get? name).bind Value.asInt?

def getBytes? (record : Record) (name : String) : Option Bytes :=
  (record.get? name).bind Value.asBytes?

/-- The value of the first field of an encoding. -/
def getWith? (record : Record) (encoding : Encoding) : Option Value :=
  (record.schema.fieldWith? encoding).bind fun f => record.get? f.name

/-- Replaces the value of the first field of an encoding; the word stands for a missing field. -/
def setWith (record : Record) (encoding : Encoding) (word : String) (value : Value) :
    Except Error Record :=
  match record.schema.fieldWith? encoding with
  | none => .error (.unknownField word)
  | some f => record.set f.name value

end Record
end LedgerScript
