import LedgerScript.Machine.Table
import LedgerScript.Script.Push
import LedgerScript.Text.Blank

/-!
Scripts as text: words that are operation names or literals.

A literal is `0x` and hexadecimal digits, and is pushed in the shortest form. Any code can be
written as `OP_UNKNOWN_` with its number in hexadecimal.
-/
namespace LedgerScript.Script

def literalMark : List Char := "0x".toList

def unknownMark : List Char := "OP_UNKNOWN_".toList

/-- The text after a beginning. -/
def after? (start text : List Char) : Option (List Char) :=
  if text.take start.length = start then some (text.drop start.length) else none

def hexValue? (c : Char) : Option Nat :=
  if c.toNat < 128 then (Hex.value? (UInt8.ofNat c.toNat)).map UInt8.toNat else none

/-- The number that hexadecimal digits spell, if it is below 256. -/
def byteOfDigits? (digits : List Char) : Option UInt8 :=
  match digits with
  | [] => none
  | _ =>
    (digits.foldlM (fun n c =>
        match hexValue? c with
        | some d => if 16 * n + d < 256 then some (16 * n + d) else none
        | none => none) 0).map UInt8.ofNat

/-- The number after a plus sign, which may be left out. -/
def byteOfText? : List Char → Option UInt8
  | '+' :: digits => byteOfDigits? digits
  | digits => byteOfDigits? digits

/-- The bytes that a word stands for. -/
def ofToken (table : Table) (token : String) : Except Error Bytes :=
  match after? literalMark token.toList with
  | some digits =>
    match Hex.decode (String.ofList digits) with
    | .ok data => .ok (push data)
    | .error fault => .error (.scriptText (.badLiteral token fault))
  | none =>
    match table.valueOf? token with
    | some value => .ok [value]
    | none =>
      match (after? unknownMark token.toList).bind byteOfText? with
      | some value => .ok [value]
      | none => .error (.scriptText (.unrecognized token))

/-- The script that a text stands for. -/
def ofText (table : Table) (text : String) : Except Error Script := do
  let parts ← (Text.words text).mapM (ofToken table)
  pure parts.flatten

/-- The word for an operation: its data, if it pushes some, else its name. -/
def tokenOf (table : Table) (op : Operation) : String :=
  match op.data with
  | some (b :: rest) => "0x" ++ Hex.encode (b :: rest)
  | _ => table.token op.opcode

/-- The text of a script; a script that cannot be split into operations has none. -/
def toText (table : Table) (script : Script) : Except Error String := do
  let ops ← script.operations
  pure (" ".intercalate (ops.map (tokenOf table)))

/-- Whether the script is `OP_DUP OP_HASH160`, a push of 20 bytes, `OP_EQUALVERIFY OP_CHECKSIG`. -/
def isPayToKeyHash (script : Script) : Bool :=
  script.length == 25 && script.take 3 == [Opcode.dup, Opcode.hash160, 20]
    && script.drop 23 == [Opcode.equalVerify, Opcode.checkSig]

/-- Whether the script is `OP_HASH160`, a push of 20 bytes, `OP_EQUAL`. -/
def isPayToScriptHash (script : Script) : Bool :=
  script.length == 23 && script.take 2 == [Opcode.hash160, 20]
    && script.drop 22 == [Opcode.equal]

end LedgerScript.Script
