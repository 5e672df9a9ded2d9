import LedgerScript.Chain.Definition
import LedgerScript.Proofs.Fallible

namespace LedgerScript

/-- The schema is one that is made from fields, so that no name stands twice in it. -/
def Schema.Accepted (schema : Schema) : Prop := Schema.ofFields schema.fields = .ok schema

theorem Schema.accepted_iff {schema : Schema} : schema.Accepted ↔ schema.names.Nodup := by
  obtain ⟨fields⟩ := schema
  unfold Accepted
  rw [Schema.ofFields_eq_ok_iff]
  exact and_iff_right rfl

theorem Schema.accepted_of_ofFields {fields : List Field} {schema : Schema}
    (made : Schema.ofFields fields = .ok schema) : schema.Accepted := by
  obtain ⟨rfl, -⟩ := Schema.ofFields_eq_ok_iff.mp made
  exact made

/-- All schemas of the layout are accepted. -/
def Layout.Accepted (layout : Layout) : Prop := ∀ kind, (layout.schema kind).Accepted

theorem Layout.Accepted.withSchema {layout : Layout} (accepted : layout.Accepted) (kind : Kind)
    {schema : Schema} (replacement : schema.Accepted) :
    (layout.withSchema kind schema).Accepted := by
  intro other
  by_cases same : other = kind
  · subst same
    rw [Layout.schema_withSchema]
    exact replacement
  · rw [Layout.schema_withSchema_of_ne layout same]
    exact accepted other

theorem Preset.builtin_accepted : ∀ preset ∈ Preset.builtin, preset.layout.Accepted := by
  intro preset member kind
  rw [Schema.accepted_iff]
  revert preset
  cases kind <;> decide

theorem FieldDefinition.schema_accepted {definitions : List FieldDefinition} {schema : Schema}
    (h : FieldDefinition.schema definitions = .ok schema) : schema.Accepted := by
  obtain ⟨fields, -, made⟩ := Fallible.bind_eq_ok_iff.mp h
  exact Schema.accepted_of_ofFields made

theorem PresetDefinition.schemaOr_accepted {standard schema : Schema} (accepted : standard.Accepted)
    {definitions : Option (List FieldDefinition)}
    (h : PresetDefinition.schemaOr standard definitions = .ok schema) : schema.Accepted := by
  cases definitions with
  | none =>
    cases h
    exact accepted
  | some list => exact FieldDefinition.schema_accepted h

theorem PresetDefinition.preset_accepted {definition : PresetDefinition} {preset : Preset}
    (h : definition.preset = .ok preset) : preset.layout.Accepted := by
  have standard : Preset.bitcoin.layout.Accepted :=
    Preset.builtin_accepted Preset.bitcoin (by simp [Preset.builtin])
  obtain ⟨transaction, fields, h⟩ := Fallible.bind_eq_ok_iff.mp h
  obtain ⟨header, headerFields, h⟩ := Fallible.bind_eq_ok_iff.mp h
  obtain ⟨body, bodyFields, h⟩ := Fallible.bind_eq_ok_iff.mp h
  obtain ⟨overrides, -, h⟩ := Fallible.bind_eq_ok_iff.mp h
  cases h
  intro kind
  cases kind with
  | transaction => exact FieldDefinition.schema_accepted fields
  | blockHeader => exact schemaOr_accepted (standard .blockHeader) headerFields
  | blockBody => exact schemaOr_accepted (standard .blockBody) bodyFields

namespace Registry

/-- What can be done to a registry. Presets and schemas that are given by hand are made of accepted
schemas; what is given as text may be anything. -/
inductive Step : Registry → Registry → Prop
  | register {registry : Registry} (preset : Preset) (accepted : preset.layout.Accepted) :
      Step registry (registry.register preset)
  | registerText {registry next : Registry} {text name : String}
      (done : registry.registerText text = .ok (name, next)) : Step registry next
  | registerFile {registry next : Registry} {contents : Option String} {name : String}
      (done : registry.registerFile contents = .ok (name, next)) : Step registry next
  | apply {registry next : Registry} {name : String} (done : registry.apply name = .ok next) :
      Step registry next
  | setSchema {registry : Registry} (kind : Kind) (schema : Schema) (accepted : schema.Accepted) :
      Step registry (registry.setSchema kind schema)
  | setOverrides {registry : Registry} (overrides : List Override) :
      Step registry (registry.setOverrides overrides)

/-- The registries that can come about from the initial one. -/
inductive Reachable : Registry → Prop
  | initial : Reachable .initial
  | step {registry next : Registry} : Reachable registry → Step registry next → Reachable next

/-- The active schemas and those of every preset are accepted. -/
structure Sound (registry : Registry) : Prop where
  layout : registry.layout.Accepted
  presets : ∀ name preset, registry.preset? name = some preset → preset.layout.Accepted

theorem initial_sound : Registry.initial.Sound := by
  constructor
  · exact Preset.builtin_accepted Preset.bitcoin (by simp [Preset.builtin])
  · intro name preset found
    have listed : (name, preset) ∈ Registry.initial.presets := Assoc.mem_of_lookup found
    obtain ⟨builtin, member, same⟩ := List.mem_map.mp listed
    cases same
    exact Preset.builtin_accepted _ member

theorem Sound.register {registry : Registry} (sound : registry.Sound) {preset : Preset}
    (accepted : preset.layout.Accepted) : (registry.register preset).Sound := by
  refine ⟨sound.layout, fun name found h => ?_⟩
  have put : (if name = preset.name then some preset else registry.preset? name) = some found :=
    (Assoc.lookup_put preset.name name preset registry.presets).symm.trans h
  by_cases own : name = preset.name
  · rw [if_pos own] at put
    cases put
    exact accepted
  · rw [if_neg own] at put
    exact sound.presets name found put

theorem Sound.registerText {registry next : Registry} (sound : registry.Sound) {text name : String}
    (done : registry.registerText text = .ok (name, next)) : next.Sound := by
  obtain ⟨definition, -, done⟩ := Fallible.bind_eq_ok_iff.mp done
  obtain ⟨preset, made, done⟩ := Fallible.bind_eq_ok_iff.mp done
  cases done
  exact sound.register (PresetDefinition.preset_accepted made)

theorem step_sound {registry next : Registry} (step : Step registry next)
    (sound : registry.Sound) : next.Sound := by
  cases step with
  | register preset accepted => exact sound.register accepted
  | registerText done => exact sound.registerText done
  | @registerFile _ contents _ done =>
    cases contents with
    | none => cases done
    | some text => exact sound.registerText done
  | apply done =>
    obtain ⟨preset, found, rfl⟩ := Registry.apply_eq_ok_iff.mp done
    exact ⟨sound.presets _ preset found, sound.presets⟩
  | setSchema kind schema accepted => exact ⟨sound.layout.withSchema kind accepted, sound.presets⟩
  | setOverrides overrides => exact ⟨sound.layout, sound.presets⟩

theorem Reachable.sound {registry : Registry} (reachable : registry.Reachable) :
    registry.Sound := by
  induction reachable with
  | initial => exact initial_sound
  | step _ step ih => exact step_sound step ih

/-- **No name stands twice in an active schema**, whatever has been done to the registry. -/
theorem Reachable.accepted {registry : Registry} (reachable : registry.Reachable) :
    registry.snapshot.layout.Accepted :=
  reachable.sound.layout

end Registry
end LedgerScript
