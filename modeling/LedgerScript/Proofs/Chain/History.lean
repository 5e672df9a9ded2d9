import LedgerScript.Chain.Request
import Mathlib.Data.List.Induction

/-!
Registries by the requests that were made of them.

A history is a list of requests, the latest first. Those that failed are part of it.
-/
namespace LedgerScript.Registry

/-- The registry after a request, whether it succeeds or fails. -/
def after (registry : Registry) (request : Request) : Registry :=
  match request.perform registry with
  | .ok _ next | .error _ next => next

/-- The registry after a history. -/
def ofHistory : List Request → Registry
  | [] => .initial
  | request :: earlier => (ofHistory earlier).after request

namespace Request

/-- The preset that is registered. -/
def preset? : Request → Option Preset
  | register preset => some preset
  | registerText text => (presetOfText text).toOption
  | _ => none

/-- The overrides that are set by hand. -/
def overrides? : Request → Option (List Override)
  | setOverrides overrides => some overrides
  | _ => none

def replacesSchema : Request → Bool
  | setSchema _ _ => true
  | _ => false

/-- The layout after a schema of it has been set by hand. -/
def relayout : Request → Layout → Layout
  | setSchema kind schema, layout => layout.withSchema kind schema
  | _, layout => layout

end Request

/-- The definition of a name: the one registered last, or else a built-in one. -/
def definition? (history : List Request) (name : String) : Option Preset :=
  (history.filterMap Request.preset? ++ Preset.builtin).find? (·.name = name)

/-- The definition that a request applies, if it applies one, after a history. -/
def applied? (earlier : List Request) : Request → Option Preset
  | .apply name => definition? earlier name
  | _ => none

/-- The definition that was applied last, as it was then. -/
def lastApplied : List Request → Preset
  | [] => .bitcoin
  | request :: earlier => (applied? earlier request).getD (lastApplied earlier)

/-- The requests made since a definition was last applied. -/
def sinceApplied : List Request → List Request
  | [] => []
  | request :: earlier =>
    if (applied? earlier request).isSome then [] else request :: sinceApplied earlier

/-- The overrides that were installed last: those set by hand, or those of the definition that was
applied if none have been set since. -/
def installed (history : List Request) : List Override :=
  ((sinceApplied history).findSome? Request.overrides?).getD (lastApplied history).overrides

section

variable (registry : Registry)

theorem after_registerText (text : String) :
    registry.after (.registerText text) =
      ((presetOfText text).toOption.map registry.register).getD registry := by
  unfold after
  rw [Request.perform_registerText, registerText_eq]
  cases presetOfText text <;> rfl

theorem after_apply (name : String) :
    registry.after (.apply name) =
      ((registry.preset? name).map registry.activate).getD registry := by
  unfold after
  rw [Request.perform_apply, Registry.apply]
  cases registry.preset? name <;> rfl

/-- Presets come and change by being registered, and in no other way. -/
theorem presets_after (request : Request) :
    (registry.after request).presets =
      (request.preset?.map fun preset => Assoc.put preset.name preset registry.presets).getD
        registry.presets := by
  cases request with
  | register | setSchema | setOverrides => rfl
  | registerText text =>
    rw [after_registerText, Request.preset?]
    cases (presetOfText text).toOption <;> rfl
  | apply name =>
    rw [after_apply]
    cases registry.preset? name <;> rfl

end

/-- A request that fails has changed nothing. -/
theorem eq_of_perform_error {request : Request} {registry next : Registry} {e : Error}
    (failed : request.perform registry = .error e next) : next = registry := by
  cases request with
  | register | setSchema | setOverrides => cases failed
  | registerText text =>
    rw [Request.perform_registerText] at failed
    split at failed <;> cases failed
    rfl
  | apply name =>
    rw [Request.perform_apply] at failed
    split at failed <;> cases failed
    rfl

theorem preset?_initial (name : String) :
    Registry.initial.preset? name = Preset.builtin.find? (·.name = name) := by
  have keyed (presets : List Preset) :
      (presets.map fun p => (p.name, p)).lookup name = presets.find? (·.name = name) := by
    induction presets with
    | nil => rfl
    | cons preset presets ih =>
      rw [List.map_cons, List.find?_cons]
      by_cases own : name = preset.name
      · subst own
        simp
      · rw [Assoc.lookup_cons_of_ne own, ih]
        simp [Ne.symm own]
  exact keyed Preset.builtin

/-- The presets are what the history says. -/
theorem preset?_ofHistory (history : List Request) (name : String) :
    (ofHistory history).preset? name = definition? history name := by
  induction history with
  | nil => exact preset?_initial name
  | cons request earlier ih =>
    have found : (ofHistory (request :: earlier)).preset? name =
        ((request.preset?.map fun preset =>
          Assoc.put preset.name preset (ofHistory earlier).presets).getD
            (ofHistory earlier).presets).lookup name :=
      congrArg (List.lookup name) (presets_after (ofHistory earlier) request)
    rw [found]
    unfold definition?
    rw [List.filterMap_cons]
    cases request.preset? with
    | none => exact ih
    | some preset =>
      dsimp only [Option.map_some, Option.getD_some]
      rw [Assoc.lookup_put, List.cons_append, List.find?_cons]
      by_cases own : preset.name = name
      · rw [if_pos own.symm, decide_eq_true own]
      · rw [if_neg (Ne.symm own), decide_eq_false own]
        exact ih

theorem ofHistory_of_applied {request : Request} {earlier : List Request} {preset : Preset}
    (applied : applied? earlier request = some preset) :
    ofHistory (request :: earlier) = (ofHistory earlier).activate preset := by
  cases request with
  | apply name =>
    rw [ofHistory, after_apply, preset?_ofHistory, show definition? earlier name = _ from applied]
    rfl
  | register | registerText | setSchema | setOverrides => cases applied

/-- Without a definition being applied only what is set by hand changes. -/
theorem snapshot_of_unapplied {request : Request} {earlier : List Request}
    (unapplied : applied? earlier request = none) :
    (ofHistory (request :: earlier)).snapshot =
      { preset := if request.replacesSchema then none else (ofHistory earlier).active
        layout := request.relayout (ofHistory earlier).layout
        table :=
          (request.overrides?.map Table.standard.overlay).getD (ofHistory earlier).table } := by
  cases request with
  | register | setSchema | setOverrides => rfl
  | registerText text =>
    rw [ofHistory, after_registerText]
    cases (presetOfText text).toOption <;> rfl
  | apply name =>
    rw [ofHistory, after_apply, preset?_ofHistory, show definition? earlier name = _ from unapplied]
    rfl

/-- **What is active is what the history says.** By induction on the history. -/
theorem snapshot_ofHistory (history : List Request) :
    (ofHistory history).snapshot =
      { preset := if (sinceApplied history).any Request.replacesSchema then none
          else some (lastApplied history).name
        layout := (sinceApplied history).foldr Request.relayout (lastApplied history).layout
        table := Table.standard.overlay (installed history) } := by
  induction history with
  | nil => rfl
  | cons request earlier ih =>
    cases applied : applied? earlier request with
    | some preset =>
      rw [ofHistory_of_applied applied]
      simp [lastApplied, sinceApplied, installed, applied, activate, install, snapshot]
    | none =>
      obtain ⟨active, layout, table⟩ := Params.mk.inj ih
      rw [snapshot_of_unapplied applied, active, layout, table]
      simp only [lastApplied, sinceApplied, installed, applied, Option.isSome_none,
        Bool.false_eq_true, if_false, Option.getD_none, List.any_cons, List.foldr_cons,
        List.findSome?_cons]
      cases request.replacesSchema <;> cases request.overrides? <;> rfl

/-- The entry that overrides leave a code: they are laid on one after another. -/
theorem entry?_overlay (overrides : List Override) (value : UInt8) :
    Table.entry? (Table.standard.overlay overrides) value =
      overrides.foldl (fun entry o => if o.value = value then some ⟨o.name, o.handler⟩ else entry)
        (Entry.standard? value) := by
  induction overrides using List.reverseRecOn with
  | nil => rfl
  | append_singleton overrides last ih =>
    rw [Table.entry?_overlay_concat, ih, List.foldl_append, List.foldl_cons, List.foldl_nil]

/-- **A registry remembers nothing but what was asked of it.** After any history a request that
fails changes nothing; a definition that is applied becomes active as a whole, under its name, and
it is the one registered last; the table is the standard one with the overrides on it that were
installed last; and registering a preset leaves alone what is active. -/
theorem perform_ofHistory (history : List Request) :
    let registry := ofHistory history
    (∀ request e next, Request.perform request registry = .error e next → next = registry) ∧
    (∀ name, match definition? history name with
      | none => (Request.apply name).perform registry = .error (.unknownPreset name) registry
      | some preset => ∃ next, (Request.apply name).perform registry = .ok .done next ∧
          next.snapshot = ⟨some name, preset.layout, Table.standard.overlay preset.overrides⟩) ∧
    (registry.table = Table.standard.overlay (installed history) ∧
      ∀ value, Table.entry? registry.table value = (installed history).foldl
        (fun entry o => if o.value = value then some ⟨o.name, o.handler⟩ else entry)
        (Entry.standard? value)) ∧
    (∀ preset, (registry.after (.register preset)).snapshot = registry.snapshot) ∧
    ∀ text, (registry.after (.registerText text)).snapshot = registry.snapshot := by
  intro registry
  have table : registry.table = Table.standard.overlay (installed history) :=
    congrArg Params.table (snapshot_ofHistory history)
  refine ⟨fun _ _ _ failed => eq_of_perform_error failed, fun name => ?_, ⟨table, fun value => ?_⟩,
    fun _ => rfl, fun text => ?_⟩
  · rw [Request.perform_apply, Registry.apply, preset?_ofHistory]
    cases found : definition? history name with
    | none => rfl
    | some preset =>
      have own : preset.name = name := by simpa using List.find?_some found
      exact ⟨_, rfl, own ▸ rfl⟩
  · rw [table, entry?_overlay]
  · rw [after_registerText]
    cases (presetOfText text).toOption <;> rfl

/-- Timed transactions under the name of a preset that has none. -/
def timedBitcoin : Preset := { Preset.peercoin with name := "Bitcoin" }

/-- `OP_NOP1` made a check of the lock time that asks for no flag. -/
def holding : Override := ⟨0xb0, "OP_HOLD", .checkLockTime false⟩

/-- A name that stood for another definition is applied, after overrides of every origin. -/
theorem perform_ofHistory_redefined :
    let history : List Request :=
      [.apply "Nowhere", .register timedBitcoin, .setOverrides [holding], .apply "Clams"]
    let registry := ofHistory history
    (Request.apply "Nowhere").perform registry = .error (.unknownPreset "Nowhere") registry ∧
    (∀ next, (Request.apply "Nowhere").perform registry =
      .error (.unknownPreset "Nowhere") next → next = registry) ∧
    registry.table = Table.standard.overlay [holding] ∧
    ∃ next, (Request.apply "Bitcoin").perform registry = .ok .done next ∧
      next.snapshot = ⟨some "Bitcoin", timedBitcoin.layout, Table.standard⟩ := by
  intro history registry
  obtain ⟨failing, applying, ⟨table, -⟩, -⟩ := perform_ofHistory history
  refine ⟨applying "Nowhere", fun next failed => failing _ _ next failed, table, ?_⟩
  exact applying "Bitcoin"

theorem foldr_relayout {requests : List Request}
    (kept : requests.any Request.replacesSchema = false) (layout : Layout) :
    requests.foldr Request.relayout layout = layout := by
  induction requests with
  | nil => rfl
  | cons request requests ih =>
    obtain ⟨first, others⟩ := Bool.or_eq_false_iff.mp (List.any_cons.symm.trans kept)
    rw [List.foldr_cons, ih others]
    cases request with
    | setSchema => cases first
    | register | registerText | apply | setOverrides => rfl

theorem installed_of_unset {history : List Request}
    (unset : ∀ overrides, .setOverrides overrides ∉ sinceApplied history) :
    installed history = (lastApplied history).overrides := by
  have none : (sinceApplied history).findSome? Request.overrides? = .none := by
    rw [List.findSome?_eq_none_iff]
    intro request member
    cases request with
    | setOverrides overrides => exact absurd member (unset overrides)
    | register | registerText | apply | setSchema => rfl
  rw [installed, none, Option.getD_none]

/-- **The name that is active tells the schemas.** They are those of the definition that was applied
last, and its table is active too unless overrides have been set since. No name is active once a
schema has been set. -/
theorem active_ofHistory (history : List Request) :
    let active := (ofHistory history).snapshot
    (∀ name, active.preset = some name →
      (lastApplied history).name = name ∧ active.layout = (lastApplied history).layout ∧
      ((∀ overrides, .setOverrides overrides ∉ sinceApplied history) →
        active.table = Table.standard.overlay (lastApplied history).overrides)) ∧
    ∀ kind schema, .setSchema kind schema ∈ sinceApplied history → active.preset = none := by
  intro active
  obtain ⟨preset, layout, table⟩ := Params.mk.inj (snapshot_ofHistory history)
  have named : active.preset = _ := preset
  constructor
  · intro name found
    rw [named] at found
    split at found
    · cases found
    · next kept =>
      rw [Bool.not_eq_true] at kept
      refine ⟨Option.some.inj found, layout.trans (foldr_relayout kept _), fun unset => ?_⟩
      exact installed_of_unset unset ▸ table
  · intro kind schema replaced
    rw [named]
    exact if_pos (List.any_eq_true.mpr ⟨_, replaced, rfl⟩)

/-- Overrides of another origin are gone when the definition is applied, and a schema that was set
for it is too. -/
theorem active_ofHistory_reapplied :
    let history : List Request :=
      [.register timedBitcoin, .apply "Clams", .setSchema .transaction ⟨[]⟩,
        .setOverrides [holding]]
    let active := (ofHistory history).snapshot
    active.preset = some "Clams" ∧
    (∀ overrides, Request.setOverrides overrides ∉ sinceApplied history) ∧
    (lastApplied history).name = "Clams" ∧ active.layout = (lastApplied history).layout ∧
    active.table = Table.standard.overlay (lastApplied history).overrides ∧
    (ofHistory (.setSchema .blockBody ⟨[]⟩ :: history)).snapshot.preset = none := by
  intro history active
  have named : active.preset = some "Clams" := rfl
  have since : sinceApplied history = [.register timedBitcoin] := rfl
  have unset : ∀ overrides, Request.setOverrides overrides ∉ sinceApplied history := by
    rw [since]
    intro overrides member
    cases List.mem_singleton.mp member
  obtain ⟨name, layout, table⟩ := (active_ofHistory history).1 "Clams" named
  refine ⟨named, unset, name, layout, table unset, ?_⟩
  exact (active_ofHistory (.setSchema .blockBody ⟨[]⟩ :: history)).2 .blockBody ⟨[]⟩
    List.mem_cons_self

/-- The name stays when overrides are set by hand: Bitcoin is active with a check of the lock time
at a code that its definition leaves alone. -/
theorem active_ofHistory_rebound :
    let history : List Request := [.setOverrides [holding]]
    let active := (ofHistory history).snapshot
    active.preset = some "Bitcoin" ∧ definition? history "Bitcoin" = some Preset.bitcoin ∧
    lastApplied history = Preset.bitcoin ∧
    .setOverrides [holding] ∈ sinceApplied history ∧
    active.table ≠ Table.standard.overlay Preset.bitcoin.overrides ∧
    (Table.entry? active.table 0xb0).map Entry.handler = some (.checkLockTime false) ∧
    (Table.entry? (Table.standard.overlay Preset.bitcoin.overrides) 0xb0).map Entry.handler =
      some .upgradable := by
  intro history active
  refine ⟨rfl, rfl, rfl, List.mem_cons_self, by decide, rfl, rfl⟩

end LedgerScript.Registry
