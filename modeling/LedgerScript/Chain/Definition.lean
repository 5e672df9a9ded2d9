import LedgerScript.Chain.Registry
import LedgerScript.Json.Value

/-!
Preset definitions: presets written as JSON.

An object names its members, each at most once; members that are not known are skipped. An object
may also be written as the list of its members in their order, and then those that may be missing
may be left out at the end.
-/
namespace LedgerScript

structure FieldDefinition where
  name : String
  format : String
  size : Option Nat
  default : Json

structure OverrideDefinition where
  value : UInt8
  name : String
  handler : String

structure PresetDefinition where
  name : String
  transaction : List FieldDefinition
  /-- Bitcoin's header where there is none. -/
  blockHeader : Option (List FieldDefinition)
  /-- Bitcoin's body where there is none. -/
  blockBody : Option (List FieldDefinition)
  overrides : List OverrideDefinition

namespace Json.Document

/-- The members of the given names, in their order; none where a member is missing. -/
def members? (names : List String) : Document → Option (List (Option Document))
  | .object members => do
    let members ← members.mapM fun (key, value) => key.map (·, value)
    if names.all fun name => (members.filter (·.1 = name)).length ≤ 1 then
      some (names.map fun name => List.lookup name members)
    else none
  | .list items =>
    if items.length ≤ names.length then
      some (items.map some ++ List.replicate (names.length - items.length) none)
    else none
  | _ => none

def text? : Document → Option String
  | .text t => t
  | _ => none

/-- A whole number of 64 bits. -/
def natural? : Document → Option Nat
  | .number n =>
    let value := ofDigits n.whole
    if n.isReal || n.negative || decide (UInt64.size ≤ value) then none else some value
  | _ => none

def byte? (document : Document) : Option UInt8 :=
  (document.natural?.filter (· < 256)).map UInt8.ofNat

def list? : Document → Option (List Document)
  | .list items => some items
  | _ => none

/-- A part that may be null or missing. -/
def optional {α : Type} (read : Document → Option α) : Option Document → Option (Option α)
  | none | some .null => some none
  | some document => (read document).map some

end Json.Document

open Json (Document)

/-- The deepest nesting of a default, inside the nesting of the definition around it. -/
def deepestDefault : Nat := 124

/-- A default: any value that does not nest too deeply, null if missing. -/
def defaultOfDocument : Option Document → Option Json
  | none => some .null
  | some document =>
    if Json.Document.depth document ≤ deepestDefault then Json.ofDocument document else none

namespace FieldDefinition

def ofDocument (document : Document) : Option FieldDefinition := do
  match ← document.members? ["name", "format", "num_bytes", "default"] with
  | [some name, some format, size, default] =>
    some ⟨← name.text?, ← format.text?, ← Document.optional Document.natural? size,
      ← defaultOfDocument default⟩
  | _ => none

/-- The default as a value: a number, the bytes of a hexadecimal text, or nothing. -/
def defaultValue (definition : FieldDefinition) : Except Error (Option Value) :=
  match definition.default with
  | .null => .ok none
  | .integer n =>
    if Int64.minValue.toInt ≤ n ∧ n ≤ Int64.maxValue.toInt then .ok (some (.int (Int64.ofInt n)))
    else .error (.unusableDefault definition.name .notInteger)
  | .real _ => .error (.unusableDefault definition.name .notInteger)
  | .text t =>
    match Hex.decode t with
    | .ok bytes => .ok (some (.bytes bytes))
    | .error fault => .error (.hex fault)
  | .list [] => .ok none
  | other => .error (.unusableDefault definition.name (.unsupported other.compact))

def field (definition : FieldDefinition) : Except Error Field := do
  let default ← definition.defaultValue
  Field.ofFormat definition.name definition.format definition.size default

/-- The schema of some definitions. -/
def schema (definitions : List FieldDefinition) : Except Error Schema := do
  let fields ← definitions.mapM field
  Schema.ofFields fields

def listOfDocument (document : Document) : Option (List FieldDefinition) := do
  (← document.list?).mapM ofDocument

end FieldDefinition

def OverrideDefinition.ofDocument (document : Document) : Option OverrideDefinition := do
  match ← document.members? ["value", "name", "handler"] with
  | [some value, some name, some handler] =>
    some ⟨← value.byte?, ← name.text?, ← handler.text?⟩
  | _ => none

def OverrideDefinition.override (definition : OverrideDefinition) : Except Error Override :=
  Override.make definition.value definition.name definition.handler

namespace PresetDefinition

def ofDocument (document : Document) : Option PresetDefinition := do
  match ← document.members?
      ["name", "tx_fields", "block_header_fields", "block_fields", "opcode_overrides"] with
  | [some name, some transaction, header, body, overrides] =>
    let overrides ← match overrides with
      | none => some []
      | some list => do (← list.list?).mapM OverrideDefinition.ofDocument
    some ⟨← name.text?, ← FieldDefinition.listOfDocument transaction,
      ← Document.optional FieldDefinition.listOfDocument header,
      ← Document.optional FieldDefinition.listOfDocument body, overrides⟩
  | _ => none

def parse (text : String) : Except Error PresetDefinition :=
  match (Document.parse text).bind ofDocument with
  | some definition => .ok definition
  | none => .error .malformedDefinition

/-- The schema of some definitions, if there are any. -/
def schemaOr (standard : Schema) : Option (List FieldDefinition) → Except Error Schema
  | none => .ok standard
  | some definitions => FieldDefinition.schema definitions

def preset (definition : PresetDefinition) : Except Error Preset := do
  let transaction ← FieldDefinition.schema definition.transaction
  let header ← schemaOr Preset.bitcoinHeader definition.blockHeader
  let body ← schemaOr Preset.bitcoinBody definition.blockBody
  let overrides ← definition.overrides.mapM OverrideDefinition.override
  pure ⟨definition.name, ⟨transaction, header, body⟩, overrides⟩

end PresetDefinition

namespace Registry

/-- Registers the preset that a text defines, and answers its name. -/
def registerText (registry : Registry) (text : String) : Except Error (String × Registry) := do
  let definition ← PresetDefinition.parse text
  let preset ← definition.preset
  pure (preset.name, registry.register preset)

/-- Registers the preset that a file defines, given what it holds, if there is such a file. -/
def registerFile (registry : Registry) (contents : Option String) :
    Except Error (String × Registry) :=
  match contents with
  | none => .error .missingFile
  | some text => registry.registerText text

end Registry
end LedgerScript
