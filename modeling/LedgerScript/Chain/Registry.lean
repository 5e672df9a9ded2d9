import LedgerScript.Chain.Preset

/-!
The registry: the known presets, and the layout and operation table that are active.

Applying a preset makes its layout and its overrides the active ones. Replacing a schema by hand
means that no named preset is active any more; replacing the overrides leaves the name.
-/
namespace LedgerScript

/-- What is active at one moment. -/
structure Params where
  preset : Option String
  layout : Layout
  table : Table

structure Registry where
  /-- The presets by name. -/
  presets : List (String × Preset)
  active : Option String
  layout : Layout
  /-- The overrides that were installed last. -/
  overrides : List Override
  /-- The table that was built when they were installed. -/
  table : Table

namespace Registry

/-- Replaces the overrides, and builds the table anew from the standard one. -/
def install (registry : Registry) (overrides : List Override) : Registry :=
  { registry with overrides := overrides, table := Table.standard.overlay overrides }

def activate (registry : Registry) (preset : Preset) : Registry :=
  { registry.install preset.overrides with active := some preset.name, layout := preset.layout }

/-- The built-in presets, the first of them active. -/
def initial : Registry :=
  let blank : Registry :=
    ⟨Preset.builtin.map fun p => (p.name, p), none, Preset.bitcoin.layout, [], Table.standard⟩
  blank.activate Preset.bitcoin

def preset? (registry : Registry) (name : String) : Option Preset := registry.presets.lookup name

/-- The names of the presets, sorted. -/
def names (registry : Registry) : List String :=
  (registry.presets.map Prod.fst).mergeSort fun a b => decide (a ≤ b)

def apply (registry : Registry) (name : String) : Except Error Registry :=
  match registry.preset? name with
  | none => .error (.unknownPreset name)
  | some preset => .ok (registry.activate preset)

def setSchema (registry : Registry) (kind : Kind) (schema : Schema) : Registry :=
  { registry with layout := registry.layout.withSchema kind schema, active := none }

def setOverrides (registry : Registry) (overrides : List Override) : Registry :=
  registry.install overrides

/-- Adds a preset or replaces the one of its name. -/
def register (registry : Registry) (preset : Preset) : Registry :=
  { registry with presets := Assoc.put preset.name preset registry.presets }

def snapshot (registry : Registry) : Params := ⟨registry.active, registry.layout, registry.table⟩

theorem apply_eq_ok_iff {registry next : Registry} {name : String} :
    registry.apply name = .ok next ↔
      ∃ preset, registry.preset? name = some preset ∧ next = registry.activate preset := by
  unfold apply
  split <;> grind

end Registry
end LedgerScript
