import LedgerScript.Chain.Definition

/-!
Requests to a registry.

What a request speaks of is read or looked up first, and the registry is changed after that. A
request that fails leaves the registry as far as it has got.
-/
namespace LedgerScript.Registry

inductive Request where
  | register (preset : Preset)
  /-- Registers the preset that a text defines. -/
  | registerText (text : String)
  | apply (name : String)
  | setSchema (kind : Kind) (schema : Schema)
  | setOverrides (overrides : List Override)

inductive Answer where
  | done
  /-- A preset was registered, in place of one of its name if there was one. -/
  | replaced (previous : Option Preset)
  | registered (name : String)

/-- A computation on a registry. What it did before it failed stays done. -/
abbrev Change (α : Type) := EStateM Error Registry α

/-- The preset that a text defines. -/
def presetOfText (text : String) : Except Error Preset := do
  let definition ← PresetDefinition.parse text
  definition.preset

/-- Reads the definition of a preset. -/
def readPreset (text : String) : Change Preset :=
  match presetOfText text with
  | .ok preset => pure preset
  | .error e => throw e

/-- Looks a preset up. -/
def findPreset (name : String) : Change Preset := do
  match (← get).preset? name with
  | some preset => pure preset
  | none => throw (.unknownPreset name)

def Request.perform : Request → Change Answer
  | .register preset => do
    let previous := (← get).preset? preset.name
    modify (·.register preset)
    pure (.replaced previous)
  | .registerText text => do
    let preset ← readPreset text
    modify (·.register preset)
    pure (.registered preset.name)
  | .apply name => do
    let preset ← findPreset name
    modify (·.activate preset)
    pure .done
  | .setSchema kind schema => do
    modify (·.setSchema kind schema)
    pure .done
  | .setOverrides overrides => do
    modify (·.setOverrides overrides)
    pure .done

theorem registerText_eq (registry : Registry) (text : String) :
    registry.registerText text =
      (presetOfText text).map fun preset => (preset.name, registry.register preset) := by
  unfold registerText presetOfText
  cases PresetDefinition.parse text with
  | error e => rfl
  | ok definition => simp [bind, Except.bind, pure, Except.pure, Except.map]

namespace Request

variable (registry : Registry)

theorem perform_registerText (text : String) :
    (registerText text).perform registry =
      match registry.registerText text with
      | .ok (name, next) => .ok (.registered name) next
      | .error e => .error e registry := by
  rw [registerText_eq]
  simp only [perform, readPreset, bind, EStateM.bind]
  cases presetOfText text <;> rfl

theorem perform_apply (name : String) :
    (Request.apply name).perform registry =
      match registry.apply name with
      | .ok next => .ok .done next
      | .error e => .error e registry := by
  have found : findPreset name registry = match registry.preset? name with
      | some preset => .ok preset registry
      | none => .error (.unknownPreset name) registry := by
    show (match registry.preset? name with
      | some preset => (pure preset : Change Preset)
      | none => throw (Error.unknownPreset name)) registry = _
    cases registry.preset? name <;> rfl
  simp only [perform, bind, EStateM.bind, found, Registry.apply]
  cases registry.preset? name <;> rfl

end Request
end LedgerScript.Registry
