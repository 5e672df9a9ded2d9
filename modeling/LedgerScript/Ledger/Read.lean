import LedgerScript.Ledger.Record

/-!
Reading records: each field by its encoding, in the order of the schema.

Transactions inside a record are read with a schema of their own, which may have fields of
transactions again. Before a transaction begins, the count that announces it has taken at least
one byte, so nesting no deeper than there are bytes is all that can occur.
-/
namespace LedgerScript

/-- Reads a field, given a reader of transactions. -/
def Field.readWith (transaction : Decoder Record) (field : Field) : Decoder Value :=
  match field.encoding with
  | .integer format => do
    let n ← format.read field.name
    pure (.int n)
  | .bytes => do
    let b ← match field.byteLength with
      | some n => Decoder.take n
      | none => CompactSize.readBytes
    pure (.bytes b)
  | .inputs => do
    let n ← CompactSize.readCount
    let list ← Decoder.times n Input.read
    pure (.inputs list)
  | .outputs => do
    let n ← CompactSize.readCount
    let list ← Decoder.times n Output.read
    pure (.outputs list)
  | .transactions => do
    let n ← CompactSize.readCount
    let list ← Decoder.times n transaction
    pure (.transactions list)

/-- Reads the fields of a schema, given a reader of transactions. -/
def Schema.readWith (transaction : Decoder Record) (schema : Schema) : Decoder Record := do
  let values ← Decoder.sequence (schema.fields.map fun field => do
    let value ← field.readWith transaction
    pure (field.name, value))
  pure ⟨schema, values⟩

/-- Reads a transaction whose transactions nest at most `depth` levels. -/
def Schema.readNested (schema : Schema) : Nat → Decoder Record
  | 0 => throw (.truncated 1 0)
  | depth + 1 => schema.readWith (schema.readNested depth)

/-- Reads a field whose transactions have the given schema. -/
def Field.read (nested : Schema) (field : Field) : Decoder Value := fun input =>
  field.readWith (nested.readNested input.length) input

/-- Reads a record whose transactions have the given schema. -/
def Schema.read (schema nested : Schema) : Decoder Record := fun input =>
  schema.readWith (nested.readNested input.length) input

end LedgerScript
