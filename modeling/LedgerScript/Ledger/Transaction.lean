import LedgerScript.Digest
import LedgerScript.Ledger.Migration
import LedgerScript.Ledger.Read
import LedgerScript.Ledger.Write
import LedgerScript.Text.Blank

namespace LedgerScript

/-- The bytes of a hexadecimal text, blanks around it not counting. -/
def bytesOfText (text : String) : Except Error Bytes :=
  match Hex.decode (Text.trim text) with
  | .ok bytes => .ok bytes
  | .error fault => .error (.hex fault)

/-- The double SHA-256 of a message. -/
def Hash.of (message : Bytes) : Hash := ⟨Digest.hash256 message, Digest.length_hash256 message⟩

namespace Record

/-- The record that a whole byte string encodes; its transactions have its own schema. -/
def ofBytes (schema : Schema) (bytes : Bytes) : Except Error Record :=
  (schema.read schema).whole bytes

def ofText (schema : Schema) (text : String) : Except Error Record := do
  let bytes ← bytesOfText text
  ofBytes schema bytes

def toText (record : Record) : Except Error String := record.toBytes.map Hex.encode

def hash (record : Record) : Except Error Hash := record.toBytes.map Hash.of

/-- What stands in the first field of inputs. -/
def inputs (tx : Record) : List Input := ((tx.getWith? .inputs).bind Value.asInputs?).getD []

def outputs (tx : Record) : List Output := ((tx.getWith? .outputs).bind Value.asOutputs?).getD []

def setInputs (tx : Record) (list : List Input) : Except Error Record :=
  tx.setWith .inputs "inputs" (.inputs list)

def setOutputs (tx : Record) (list : List Output) : Except Error Record :=
  tx.setWith .outputs "outputs" (.outputs list)

def version? (tx : Record) : Option Int64 := tx.getInt? "nVersion"

def lockTime? (tx : Record) : Option Int64 := tx.getInt? "nLockTime"

/-- Whether the transaction has one input, and that spends nothing. -/
def isCoinbase (tx : Record) : Bool :=
  match tx.inputs with
  | [input] => input.outPoint.isNull
  | _ => false

end Record
end LedgerScript
