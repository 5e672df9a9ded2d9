import LedgerScript.Ledger.Record

/-!
Migration: giving a record another schema.

A value is kept where the new schema has a field of its name that accepts it, and a field without
such a value takes its default. Values that the new schema has no field for lie dormant.
-/
namespace LedgerScript.Record

/-- The values after a field has been provided for. -/
def provide (values : List (String × Value)) (field : Field) : List (String × Value) :=
  if ((values.lookup field.name).map field.encoding.accepts).getD false then values
  else Assoc.put field.name field.default values

def migrate (record : Record) (schema : Schema) : Record :=
  ⟨schema, schema.fields.foldl provide record.values⟩

/-- A value whose transactions, if it is a list of them, are migrated. -/
def rebindValue (schema : Schema) : Value → Value
  | .transactions list => .transactions (list.map (·.migrate schema))
  | value => value

/-- Migrates the transactions in all values, dormant ones included. -/
def rebindTransactions (record : Record) (schema : Schema) : Record :=
  { record with values := record.values.map fun (name, value) => (name, rebindValue schema value) }

theorem accepts_rebindValue (encoding : Encoding) (schema : Schema) (value : Value) :
    encoding.accepts (rebindValue schema value) = encoding.accepts value := by
  cases value <;> cases encoding <;> rfl

end LedgerScript.Record
