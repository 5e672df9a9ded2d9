import LedgerScript.Assoc
import LedgerScript.Script.Text
import LedgerScript.Text.Base58

/-!
Script templates: the text of a script with placeholders for literals.

Filling a template puts literals for its placeholders. Extracting goes the other way: the text of
a script is compared word by word, and the literals at the placeholders are what it was filled with.
-/
namespace LedgerScript

inductive SlotKind where
  /-- A digest of 20 bytes, given as an address or in hexadecimal. -/
  | address
  /-- Any text, pushed as its UTF-8 bytes. -/
  | text
deriving DecidableEq, Repr

structure Template where
  name : String
  text : String
  /-- What may be put for each name. -/
  slots : List (String × SlotKind)
deriving DecidableEq, Repr

/-- A script found to follow a template, with its literals by name. -/
structure TemplateMatch where
  template : Template
  literals : List (String × String)
deriving DecidableEq, Repr

namespace Template

def payToKeyHash : Template where
  name := "Pay-To-Public-Key-Hash Output"
  text := "OP_DUP OP_HASH160 <recipient> OP_EQUALVERIFY OP_CHECKSIG"
  slots := [("recipient", .address)]

def payToScriptHash : Template where
  name := "Pay-To-Script-Hash Output"
  text := "OP_HASH160 <recipient> OP_EQUAL"
  slots := [("recipient", .address)]

def nullData : Template where
  name := "Null Output"
  text := "OP_RETURN <text>"
  slots := [("text", .text)]

def known : List Template := [payToKeyHash, payToScriptHash, nullData]

/-- The name of the slot that a word stands for. -/
def placeholder? (word : String) : Option String :=
  match word.toList with
  | '<' :: rest => if rest.getLast? = some '>' then some (String.ofList rest.dropLast) else none
  | _ => none

/-- The digits of a text, with or without the mark of a literal. -/
def digitsOf (value : String) : String :=
  String.ofList ((Script.after? Script.literalMark value.toList).getD value.toList)

/-- The bytes of exactly 40 hexadecimal digits. -/
def hashOfDigits? (digits : String) : Option Bytes :=
  if (Text.utf8 digits).length = 40 then (Hex.decode digits).toOption else none

/-- The digest of an address, whose first byte is left out, or of hexadecimal digits. -/
def decodeAddress (value : String) : Option Bytes :=
  match Base58.decodeChecked value with
  | some (version :: hash) =>
    if (version :: hash).length = 21 then some hash else hashOfDigits? (digitsOf value)
  | _ => hashOfDigits? (digitsOf value)

def literal (bytes : Bytes) : String := "0x" ++ Hex.encode bytes

/-- Whether a word is a literal that a slot may stand for. -/
def isLiteral (word : String) (kind : SlotKind) : Bool :=
  match Script.after? Script.literalMark word.toList with
  | none => false
  | some digits =>
    let decoded := Hex.decode (String.ofList digits)
    match kind with
    | .address => (Text.utf8OfChars digits).length == 40 && decoded.toOption.isSome
    | .text => decoded.toOption.isSome

/-- The literal for a value. -/
def literalOf (name value : String) : SlotKind → Except Error String
  | .address =>
    match decodeAddress value with
    | some hash => .ok (literal hash)
    | none => .error (.template (.badAddress name))
  | .text => .ok (literal (Text.utf8 value))

/-- A word of the template with its value put in, if it is a placeholder. -/
def fillWord (template : Template) (values : List (String × String)) (word : String) :
    Except Error String :=
  match placeholder? word with
  | none => .ok word
  | some name =>
    match template.slots.lookup name with
    | none => .error (.template (.noSlot template.name name))
    | some kind =>
      match values.lookup name with
      | none => .error (.template (.missingValue name))
      | some value => literalOf name value kind

/-- The text of the template with values for its placeholders. -/
def fill (template : Template) (values : List (String × String)) : Except Error String := do
  let words ← (Text.words template.text).mapM (template.fillWord values)
  pure (" ".intercalate words)

def toScript (template : Template) (values : List (String × String)) (table : Table) :
    Except Error Script := do
  let text ← template.fill values
  Script.ofText table text

/-- Compares words, adding the literals at placeholders to those found; the last one of a name
counts. -/
def matchWords (template : Template) (found : List (String × String)) :
    List String → List String → Option (List (String × String))
  | [], [] => some found
  | word :: words, want :: wants =>
    match placeholder? want with
    | some name =>
      match template.slots.lookup name with
      | none => none
      | some kind =>
        if isLiteral word kind then template.matchWords (Assoc.put name word found) words wants
        else none
    | none => if word = want then template.matchWords found words wants else none
  | _, _ => none

/-- The literals of a script that follows the template; each slot must occur. -/
def extract (template : Template) (script : Script) (table : Table) : Option TemplateMatch := do
  let text ← (Script.toText table script).toOption
  let found ← template.matchWords [] (Text.words text) (Text.words template.text)
  if template.slots.all fun (name, _) => (found.lookup name).isSome then
    some ⟨template, found⟩
  else none

def follows (template : Template) (script : Script) (table : Table) : Bool :=
  (template.extract script table).isSome

/-- The first template that a script follows. -/
def recognize (script : Script) (templates : List Template) (table : Table) :
    Option TemplateMatch :=
  templates.findSome? fun template => template.extract script table

end Template

def TemplateMatch.recipient? (found : TemplateMatch) : Option String :=
  found.literals.lookup "recipient"

end LedgerScript
