import LedgerScript.Ledger.Block
import LedgerScript.Proofs.Fallible
import LedgerScript.Proofs.Ledger.Delimited
import LedgerScript.Proofs.Ledger.Equivalence
import LedgerScript.Proofs.Ledger.Migration

/-!
Complete records.

A record is complete when each field of its schema has a value of the kind that the field takes, and
when the transactions in its values are complete too, dormant values included.

* `Record.Complete.toBytes`: writing a complete record never fails for a value that is missing or of
  another kind.
* `Record.Sound`: the invariant behind completeness. The schema has each name once, and defaults of
  the right kind whose transactions are sound as well.
* `Record.Sound.set`, `Record.Sound.migrate`, `Schema.Sound.read` and the like: what is made of
  sound parts is sound.
-/
namespace LedgerScript

/-- Each field of the schema has a value of its kind, at every depth of transactions. -/
inductive Record.Complete : Record → Prop
  | intro {record : Record}
      (filled : ∀ field ∈ record.schema.fields, ∃ value, record.get? field.name = some value ∧
        field.encoding.accepts value = true)
      (nested : ∀ name list, record.values.lookup name = some (.transactions list) →
        ∀ tx ∈ list, Complete tx) : Complete record

/-- The error is that a field has no value, or one of another kind. -/
inductive Error.Misfit : Error → Prop
  | missing (name : String) : Misfit (.unknownField name)
  | otherKind (field expected : String) : Misfit (.typeMismatch field expected)

/-- Whatever stops the writer, it is not a value that is missing or of another kind. -/
def Written.Fits (w : Written) : Prop := ∀ e, w.fault = some e → ¬ e.Misfit

/-- The error is that a value of the right kind is of a wrong length, or out of range. -/
inductive Error.Refusal : Error → Prop
  | otherLength (field : String) (expected actual : Nat) :
      Refusal (.lengthMismatch field expected actual)
  | otherRange (field : String) (value : Int) (width : Nat) : Refusal (.overflow field value width)
  | otherWidth (field : String) (width : Nat) :
      Refusal (.unsupportedEncoding (.integerWidth field width))

theorem IntegerFormat.write_faults (format : IntegerFormat) (field : String) (n : Int64) :
    (format.write field n).FaultsAre Error.Refusal := by
  unfold write
  split
  · split
    · exact Written.faultsAre_ofBytes _
    · exact Written.faultsAre_stop (.otherRange _ _ _)
  · exact Written.faultsAre_stop (.otherWidth _ _)

/-- What stops a value from being written: its kind, a refusal, or a transaction in it. -/
theorem Value.write_faults {p : Error → Prop} {value : Value} {field : Field}
    (otherKind : field.encoding.accepts value = false →
      p (.typeMismatch field.name field.encoding.describe))
    (refused : ∀ e, e.Refusal → p e) (nested : value.All fun tx => tx.write.FaultsAre p) :
    (value.write field).FaultsAre p := by
  cases value <;> cases encoding : field.encoding <;> simp only [Value.write, encoding] <;>
    rw [encoding] at otherKind <;> try exact Written.faultsAre_stop (otherKind rfl)
  case int.integer n format =>
    exact fun e stopped => refused e (format.write_faults field.name n e stopped)
  case bytes.bytes b =>
    split
    · exact Written.faultsAre_ofBytes _
    · split
      · exact Written.faultsAre_ofBytes b
      · exact Written.faultsAre_stop (refused _ (.otherLength _ _ _))
  case inputs.inputs => exact Written.faultsAre_ofBytes _
  case outputs.outputs => exact Written.faultsAre_ofBytes _
  case transactions.transactions list =>
    rw [writeRecords_eq]
    refine (Written.faultsAre_ofBytes _).append (.concat fun w member => ?_)
    obtain ⟨tx, inList, rfl⟩ := List.mem_map.mp member
    exact nested list rfl tx inList

theorem Value.write_fits {value : Value} {field : Field}
    (accepts : field.encoding.accepts value = true) (nested : value.All fun tx => tx.write.Fits) :
    (value.write field).Fits := by
  refine Value.write_faults (fun otherKind => ?_) (fun e refused => ?_) nested
  · cases otherKind.symm.trans accepts
  · cases refused <;> rintro ⟨⟩

namespace Record.Complete

theorem write_fits {record : Record} (complete : record.Complete) : record.write.Fits := by
  induction complete with
  | @intro record filled nested ih =>
    rw [Record.write_eq]
    refine Written.FaultsAre.concat fun w member => ?_
    obtain ⟨field, inSchema, rfl⟩ := List.mem_map.mp member
    obtain ⟨value, found, accepts⟩ := filled field inSchema
    have held := lookup_of_get? found
    rw [writeField, held]
    exact Value.write_fits accepts fun list same tx => ih field.name list (same ▸ held) tx

/-- **A complete record is never written with a value missing or of another kind.** -/
theorem toBytes {record : Record} (complete : record.Complete) {e : Error}
    (failed : record.toBytes = .error e) : ¬ e.Misfit :=
  Written.FaultsAre.toExcept complete.write_fits failed

end Record.Complete

/-! ## The invariant -/

/-- The record is complete, and its schema would make complete records of others. `sound_iff` says
it of the schema and of the values apart. -/
inductive Record.Sound : Record → Prop
  | intro {record : Record} (unique : record.schema.names.Nodup)
      (accepted : ∀ field ∈ record.schema.fields, field.encoding.accepts field.default = true)
      (defaults : ∀ field ∈ record.schema.fields, ∀ list, field.default = .transactions list →
        ∀ tx ∈ list, Sound tx)
      (filled : ∀ field ∈ record.schema.fields, ∃ value,
        record.values.lookup field.name = some value ∧ field.encoding.accepts value = true)
      (nested : ∀ name list, record.values.lookup name = some (.transactions list) →
        ∀ tx ∈ list, Sound tx) : Sound record

/-- The value is of the kind that the field takes, and the transactions in it are sound. -/
structure Field.Suits (field : Field) (value : Value) : Prop where
  accepts : field.encoding.accepts value = true
  nested : value.All Record.Sound

/-- No name stands twice, and each default suits its field. -/
structure Schema.Sound (schema : Schema) : Prop where
  unique : schema.names.Nodup
  defaults : ∀ field ∈ schema.fields, field.Suits field.default

/-- Each field has a value of its kind, and the transactions in all values, seen or dormant, are
sound. -/
structure Schema.Filled (schema : Schema) (values : List (String × Value)) : Prop where
  fields : ∀ field ∈ schema.fields, ∃ value, values.lookup field.name = some value ∧
    field.encoding.accepts value = true
  nested : ∀ name value, values.lookup name = some value → value.All Record.Sound

theorem Record.sound_iff {record : Record} :
    record.Sound ↔ record.schema.Sound ∧ record.schema.Filled record.values := by
  constructor
  · rintro ⟨unique, accepted, defaults, filled, nested⟩
    have suits (field : Field) (member : field ∈ record.schema.fields) :
        field.Suits field.default := ⟨accepted field member, defaults field member⟩
    refine ⟨⟨unique, suits⟩, filled, ?_⟩
    rintro name _ found list rfl
    exact nested name list found
  · rintro ⟨schema, filled⟩
    exact .intro schema.unique (fun field member => (schema.defaults field member).accepts)
      (fun field member => (schema.defaults field member).nested) filled.fields
      fun name list found => filled.nested name _ found list rfl

theorem Record.Sound.complete {record : Record} (sound : record.Sound) : record.Complete := by
  induction sound with
  | @intro record unique accepted defaults filled nested _ ih =>
    refine .intro (fun field member => ?_) ih
    rw [record.get?_of_mem (List.mem_map_of_mem member)]
    exact filled field member

theorem Encoding.emptyValue_all (encoding : Encoding) (byteLength : Option Nat)
    (p : Record → Prop) : (encoding.emptyValue byteLength).All p := by
  rintro list same tx member
  cases encoding <;> cases same
  cases member

theorem Field.make_eq_ok {name : String} {encoding : Encoding} {byteLength : Option Nat}
    {default : Option Value} {field : Field}
    (made : Field.make name encoding byteLength default = .ok field) :
    let value := default.getD (encoding.emptyValue byteLength)
    encoding.accepts value = true ∧ field = ⟨name, encoding, byteLength, value⟩ := by
  unfold make at made
  grind

/-- A default that was given has sound transactions, and an empty one has none. -/
theorem Field.suits_of_make {name : String} {encoding : Encoding} {byteLength : Option Nat}
    {default : Option Value} {field : Field}
    (given : ∀ value, default = some value → value.All Record.Sound)
    (made : Field.make name encoding byteLength default = .ok field) :
    field.Suits field.default := by
  obtain ⟨accepts, rfl⟩ := Field.make_eq_ok made
  refine ⟨accepts, ?_⟩
  cases default with
  | none => exact encoding.emptyValue_all byteLength _
  | some value => exact given value rfl

theorem Schema.sound_of_ofFields {fields : List Field} {schema : Schema}
    (each : ∀ field ∈ fields, field.Suits field.default)
    (made : Schema.ofFields fields = .ok schema) : schema.Sound := by
  obtain ⟨rfl, unique⟩ := Schema.ofFields_eq_ok_iff.mp made
  exact ⟨unique, each⟩

/-- A binding of the field's name to a value that suits it. -/
def Field.Binds (field : Field) (binding : String × Value) : Prop :=
  binding.1 = field.name ∧ field.Suits binding.2

theorem Field.lookup_of_binds {fields : List Field} {values : List (String × Value)}
    (binds : List.Forall₂ Field.Binds fields values) (unique : (fields.map Field.name).Nodup)
    {field : Field} (member : field ∈ fields) :
    ∃ value, values.lookup field.name = some value ∧ field.Suits value := by
  induction binds with
  | nil => cases member
  | @cons first binding fields values own _ ih =>
    obtain ⟨name, value⟩ := binding
    obtain ⟨rfl, suits⟩ : name = first.name ∧ first.Suits value := own
    obtain ⟨apart, unique⟩ := List.nodup_cons.mp unique
    cases List.mem_cons.mp member with
    | inl same =>
      subst same
      exact ⟨value, List.lookup_cons_self, suits⟩
    | inr later =>
      have ne : field.name ≠ first.name := fun same => apart (same ▸ List.mem_map_of_mem later)
      rw [Assoc.lookup_cons_of_ne ne]
      exact ih unique later

theorem Field.nested_of_binds {fields : List Field} {values : List (String × Value)}
    (binds : List.Forall₂ Field.Binds fields values) :
    ∀ binding ∈ values, binding.2.All Record.Sound := by
  induction binds with
  | nil => exact List.forall_mem_nil _
  | cons own _ ih => exact List.forall_mem_cons.mpr ⟨own.2.nested, ih⟩

namespace Schema.Sound

variable {schema : Schema}

theorem record (sound : schema.Sound) {values : List (String × Value)}
    (binds : List.Forall₂ Field.Binds schema.fields values) : (Record.mk schema values).Sound := by
  refine Record.sound_iff.mpr ⟨sound, fun field member => ?_, fun name value found => ?_⟩
  · obtain ⟨value, found, suits⟩ := Field.lookup_of_binds binds sound.unique member
    exact ⟨value, found, suits.accepts⟩
  · exact Field.nested_of_binds binds _ (Assoc.mem_of_lookup found)

theorem new (sound : schema.Sound) : (Record.new schema).Sound := by
  apply sound.record
  rw [List.forall₂_map_right_iff, List.forall₂_same]
  exact fun field member => ⟨rfl, sound.defaults field member⟩

end Schema.Sound

/-! ## Records that are read -/

namespace Decoder

variable {α β : Type} {d : Decoder α} {f : α → Decoder β} {p : α → Prop} {q : β → Prop}

/-- All that the decoder answers has a property. -/
def Yields (p : α → Prop) (d : Decoder α) : Prop := ∀ ⦃input x rest⦄, d input = .ok x rest → p x

namespace Yields

theorem pure {x : α} (h : p x) : (Pure.pure x : Decoder α).Yields p := by
  rintro input y rest ⟨⟩
  exact h

theorem bind (first : d.Yields p) (second : ∀ x, p x → (f x).Yields q) : (d >>= f).Yields q := by
  intro input y rest ok
  obtain ⟨x, mid, hd, hf⟩ := bind_eq_ok_iff.mp ok
  exact second x (first hd) hf

/-- A last step that only computes. -/
theorem map {g : α → β} (first : d.Yields p) (h : ∀ x, p x → q (g x)) :
    (d >>= fun x => Pure.pure (g x)).Yields q :=
  first.bind fun x own => pure (h x own)

theorem any (d : Decoder α) : d.Yields fun _ => True := fun _ _ _ _ => trivial

theorem times (each : d.Yields p) (n : Nat) : (Decoder.times n d).Yields (∀ x ∈ ·, p x) := by
  induction n with
  | zero => exact pure (List.forall_mem_nil p)
  | succ n ih =>
    exact each.bind fun x own => ih.map fun xs others => List.forall_mem_cons.mpr ⟨own, others⟩

theorem sequence {related : α → β → Prop} {reader : α → Decoder β} {xs : List α}
    (each : ∀ x ∈ xs, (reader x).Yields (related x)) :
    (Decoder.sequence (xs.map reader)).Yields (List.Forall₂ related xs) := by
  induction xs with
  | nil => exact pure .nil
  | cons x xs ih =>
    rw [List.forall_mem_cons] at each
    exact each.1.bind fun y own => (ih each.2).map fun ys others => .cons own others

end Yields
end Decoder

open Decoder (Yields)

/-- What is read suits the encoding of the field, and what holds of transactions that are read holds
of those inside it. -/
theorem Field.readWith_yields {p : Record → Prop} {transaction : Decoder Record}
    (nested : transaction.Yields p) (field : Field) :
    (field.readWith transaction).Yields
      fun value => field.encoding.accepts value = true ∧ value.All p := by
  unfold readWith
  cases field.encoding with
  | integer => exact (Yields.any _).map fun n _ => ⟨rfl, nofun⟩
  | bytes =>
    cases field.byteLength with
    | none => exact (Yields.any _).map fun b _ => ⟨rfl, nofun⟩
    | some n => exact (Yields.any _).map fun b _ => ⟨rfl, nofun⟩
  | inputs => exact (Yields.any _).bind fun n _ => (Yields.any _).map fun list _ => ⟨rfl, nofun⟩
  | outputs => exact (Yields.any _).bind fun n _ => (Yields.any _).map fun list _ => ⟨rfl, nofun⟩
  | transactions =>
    refine (Yields.any _).bind fun n _ => (nested.times n).map fun list sound => ⟨rfl, ?_⟩
    rintro _ ⟨⟩
    exact sound

theorem Field.readWith_suits {transaction : Decoder Record}
    (nested : transaction.Yields Record.Sound) (field : Field) :
    (field.readWith transaction).Yields field.Suits := fun _ _ _ ok =>
  have own := Field.readWith_yields nested field ok
  ⟨own.1, own.2⟩

namespace Schema.Sound

variable {schema nested : Schema}

theorem readWith (sound : schema.Sound) {transaction : Decoder Record}
    (each : transaction.Yields Record.Sound) :
    (schema.readWith transaction).Yields Record.Sound := by
  apply Yields.map (Yields.sequence fun field _ => ?_) fun values binds => sound.record binds
  exact (Field.readWith_suits each field).map fun value suits => ⟨rfl, suits⟩

/-- By induction on how deep transactions may nest. -/
theorem readNested (sound : nested.Sound) (depth : Nat) :
    (nested.readNested depth).Yields Record.Sound := by
  induction depth with
  | zero => exact fun _ _ _ ok => nomatch ok
  | succ depth ih => exact sound.readWith ih

/-- **What is read under sound schemas is sound.** -/
theorem read (sound : schema.Sound) (inner : nested.Sound) :
    (schema.read nested).Yields Record.Sound :=
  fun input _ _ ok => sound.readWith (inner.readNested input.length) ok

end Schema.Sound

/-! ## Records that are changed -/

namespace Record

/-- A record of defaults holds the default of each field. -/
theorem lookup_new {schema : Schema} (unique : schema.names.Nodup) {field : Field}
    (member : field ∈ schema.fields) :
    (new schema).values.lookup field.name = some field.default := by
  refine Assoc.lookup_of_mem ?_ (List.mem_map_of_mem member)
  rw [new, List.map_map]
  exact unique

theorem set_eq_ok_iff {record next : Record} {name : String} {value : Value} :
    record.set name value = .ok next ↔ ∃ field, record.schema.field? name = some field ∧
      field.encoding.accepts value = true ∧
      next = { record with values := Assoc.put name value record.values } := by
  unfold set
  cases record.schema.field? name with
  | none => simp
  | some field => grind

namespace Sound

variable {record next : Record}

theorem value (sound : record.Sound) {name : String} {value : Value}
    (found : record.get? name = some value) : value.All Sound :=
  (sound_iff.mp sound).2.nested name value (lookup_of_get? found)

theorem set (sound : record.Sound) {name : String} {value : Value} (nested : value.All Sound)
    (done : record.set name value = .ok next) : next.Sound := by
  obtain ⟨field, found, accepts, rfl⟩ := set_eq_ok_iff.mp done
  obtain ⟨schema, filled⟩ := sound_iff.mp sound
  refine sound_iff.mpr ⟨schema, fun own member => ?_, fun other held lookup => ?_⟩
  · by_cases same : own.name = name
    · have located := Schema.field?_of_mem schema.unique member
      rw [same, found] at located
      cases located
      exact ⟨value, by rw [same, Assoc.lookup_put_self], accepts⟩
    · rw [Assoc.lookup_put_of_ne same]
      exact filled.fields own member
  · rw [Assoc.lookup_put] at lookup
    split at lookup
    · cases lookup
      exact nested
    · exact filled.nested other held lookup

theorem setAll (sound : record.Sound) {values : List (String × Value)}
    (nested : ∀ binding ∈ values, binding.2.All Sound)
    (done : record.setAll values = .ok next) : next.Sound := by
  induction values generalizing record with
  | nil =>
    cases done
    exact sound
  | cons binding values ih =>
    rw [List.forall_mem_cons] at nested
    obtain ⟨changed, first, others⟩ := Fallible.bind_eq_ok_iff.mp done
    exact ih (sound.set nested.1 first) nested.2 others

theorem setWith (sound : record.Sound) {encoding : Encoding} {word : String} {value : Value}
    (nested : value.All Sound) (done : record.setWith encoding word value = .ok next) :
    next.Sound := by
  unfold Record.setWith at done
  split at done
  · cases done
  · exact sound.set nested done

/-- **Migration to a sound schema keeps records sound**: what was dormant is sound too, and where it
is not of the kind that a field takes, it makes way for the default. -/
theorem migrate (sound : record.Sound) {schema : Schema} (target : schema.Sound) :
    (record.migrate schema).Sound := by
  obtain ⟨-, filled⟩ := sound_iff.mp sound
  have settled {field : Field} (member : field ∈ schema.fields) :
      field.Suits (field.settle (record.values.lookup field.name)) := by
    cases found : record.values.lookup field.name with
    | none => exact target.defaults field member
    | some value =>
      by_cases accepts : field.encoding.accepts value = true
      · rw [Field.settle_of_accepts accepts]
        exact ⟨accepts, filled.nested _ value found⟩
      · rw [Field.settle, if_neg accepts]
        exact target.defaults field member
  have taken {field : Field} (member : field ∈ schema.fields) :
      (record.migrate schema).values.lookup field.name =
        some (field.settle (record.values.lookup field.name)) :=
    lookup_foldl_provide record.values target.unique member
  refine sound_iff.mpr ⟨target, fun field member => ?_, fun name value found => ?_⟩
  · exact ⟨_, taken member, (settled member).accepts⟩
  · by_cases visible : name ∈ schema.names
    · obtain ⟨field, member, rfl⟩ := List.mem_map.mp visible
      rw [taken member] at found
      cases found
      exact (settled member).nested
    · rw [lookup_migrate_dormant record visible] at found
      exact filled.nested name value found

theorem rebindTransactions (sound : record.Sound) {nested : Schema} (target : nested.Sound) :
    (record.rebindTransactions nested).Sound := by
  obtain ⟨schema, filled⟩ := sound_iff.mp sound
  refine sound_iff.mpr ⟨schema, fun field member => ?_, fun name value found => ?_⟩
  · obtain ⟨value, found, accepts⟩ := filled.fields field member
    refine ⟨rebindValue nested value, ?_, (accepts_rebindValue _ nested value).trans accepts⟩
    rw [lookup_rebindTransactions, found]
    rfl
  · rw [lookup_rebindTransactions, Option.map_eq_some_iff] at found
    obtain ⟨before, found, rfl⟩ := found
    rintro list same tx member
    cases before with
    | transactions old =>
      cases same
      obtain ⟨tx, inOld, rfl⟩ := List.mem_map.mp member
      exact (filled.nested name _ found old rfl tx inOld).migrate target
    | int | bytes | inputs | outputs => cases same

end Sound
end Record

/-- The header and the body are sound. -/
structure Block.Sound (block : Block) : Prop where
  header : block.header.Sound
  body : block.body.Sound

namespace Block

variable {layout : Layout} {block next : Block}

theorem sound_new (sound : ∀ kind, (layout.schema kind).Sound) : (new layout).Sound :=
  ⟨(sound .blockHeader).new, (sound .blockBody).new⟩

theorem sound_of_read (sound : ∀ kind, (layout.schema kind).Sound) {input rest : Bytes}
    (done : read layout input = .ok block rest) : block.Sound := by
  obtain ⟨header, mid, first, done⟩ := Decoder.bind_eq_ok_iff.mp done
  obtain ⟨body, left, second, done⟩ := Decoder.bind_eq_ok_iff.mp done
  cases done
  exact ⟨(sound .blockHeader).read (sound .blockHeader) first,
    (sound .blockBody).read (sound .transaction) second⟩

namespace Sound

theorem setTransactions (sound : block.Sound) {list : List Record} (each : ∀ tx ∈ list, tx.Sound)
    (done : block.setTransactions list = .ok next) : next.Sound := by
  obtain ⟨body, set, rfl⟩ := Fallible.map_eq_ok_iff.mp done
  refine ⟨sound.header, sound.body.setWith ?_ set⟩
  rintro _ ⟨⟩
  exact each

theorem rebind (sound : block.Sound) (target : ∀ kind, (layout.schema kind).Sound) :
    (block.rebind layout).Sound where
  header := sound.header.migrate (target .blockHeader)
  body := (sound.body.migrate (target .blockBody)).rebindTransactions (target .transaction)

/-- **Both parts of a block are written as complete records.** -/
theorem toBytes (sound : block.Sound) {e : Error} (failed : block.toBytes = .error e) :
    ¬ e.Misfit := by
  have header := sound.header.complete.write_fits
  have body := sound.body.complete.write_fits
  exact (Written.FaultsAre.append header body).toExcept failed

end Sound
end Block
end LedgerScript
