import LedgerScript.Wire.Integer

namespace LedgerScript

inductive Encoding where
  /-- A number of fixed width. -/
  | integer (format : IntegerFormat)
  /-- A byte string, of fixed length where the field says so, else with its length in front. -/
  | bytes
  /-- A count and so many transaction inputs. -/
  | inputs
  /-- A count and so many transaction outputs. -/
  | outputs
  /-- A count and so many transactions. -/
  | transactions
deriving DecidableEq, Repr

namespace Encoding

/-- The integer of a format letter; lower-case letters are signed. -/
def ofLetter? (order : ByteOrder) : Char → Option Encoding
  | 'b' => some (.integer ⟨order, true, 1⟩)
  | 'B' => some (.integer ⟨order, false, 1⟩)
  | 'h' => some (.integer ⟨order, true, 2⟩)
  | 'H' => some (.integer ⟨order, false, 2⟩)
  | 'i' | 'l' => some (.integer ⟨order, true, 4⟩)
  | 'I' | 'L' => some (.integer ⟨order, false, 4⟩)
  | 'q' => some (.integer ⟨order, true, 8⟩)
  | 'Q' => some (.integer ⟨order, false, 8⟩)
  | _ => none

/-- An order mark and a letter; without a mark the order is little-endian. -/
def ofLetters? : List Char → Option Encoding
  | [letter] => ofLetter? .little letter
  | [mark, letter] =>
    if mark = '<' ∨ mark = '=' then ofLetter? .little letter
    else if mark = '>' ∨ mark = '!' then ofLetter? .big letter
    else none
  | _ => none

def ofFormat (format : String) : Except Error Encoding :=
  if format = "bytes" then .ok .bytes
  else if format = "inputs" then .ok .inputs
  else if format = "outputs" then .ok .outputs
  else if format = "vectortx" ∨ format = "transactions" then .ok .transactions
  else
    match ofLetters? format.toList with
    | some encoding => .ok encoding
    | none => .error (.unsupportedEncoding (.unknownFormat format))

def describe : Encoding → String
  | .integer format =>
    let sign := if format.signed then "signed" else "unsigned"
    let order := match format.order with
      | .little => "little-endian"
      | .big => "big-endian"
    s!"{format.width}-byte {sign} {order} integer"
  | .bytes => "bytes"
  | .inputs => "inputs"
  | .outputs => "outputs"
  | .transactions => "transactions"

end Encoding
end LedgerScript
