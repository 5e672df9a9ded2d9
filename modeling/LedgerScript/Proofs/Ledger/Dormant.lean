import LedgerScript.Proofs.Ledger.Built
import Mathlib.Logic.Relation

/-!
Values that lie dormant.

A value is out of sight while a record is bound to a schema that has no field for it, and so no
change can reach it. Under a schema that has one the value is seen again, and stays if it is of the
field's kind.
-/
namespace LedgerScript.Record

/-- Values stay through a migration if each field of their name is of their kind. -/
theorem lookup_foldl_provide_of_accepts {values : List (String × Value)} {fields : List Field}
    {name : String} {value : Value} (held : values.lookup name = some value)
    (suits : ∀ field ∈ fields, field.name = name → field.encoding.accepts value = true) :
    (fields.foldl provide values).lookup name = some value := by
  induction fields generalizing values with
  | nil => exact held
  | cons field fields ih =>
    rw [List.forall_mem_cons] at suits
    refine ih ?_ suits.2
    by_cases own : field.name = name
    · have accepts := suits.1 own
      subst own
      rw [lookup_provide_self, held, Field.settle_of_accepts accepts]
    · rw [lookup_provide_of_ne values (Ne.symm own), held]

/-- A step that leaves the value of a name alone: migration to a schema that has no field of the
name or one of the value's kind, or a change to a field of another name. -/
inductive Spares (name : String) (value : Value) : Record → Record → Prop
  | migrate {record : Record} (schema : Schema)
      (suits : ∀ field ∈ schema.fields, field.name = name →
        field.encoding.accepts value = true) : Spares name value record (record.migrate schema)
  | set {record next : Record} {other : String} {given : Value} (apart : other ≠ name)
      (done : record.set other given = .ok next) : Spares name value record next

variable {name : String} {value : Value} {record next last : Record}

theorem Spares.lookup (step : Spares name value record next)
    (held : record.values.lookup name = some value) : next.values.lookup name = some value := by
  cases step with
  | migrate schema suits => exact lookup_foldl_provide_of_accepts held suits
  | set apart done =>
    obtain ⟨field, -, -, rfl⟩ := set_eq_ok_iff.mp done
    rw [Assoc.lookup_put_of_ne apart.symm, held]

/-- By induction on the steps, of which the record may have taken any number. -/
theorem lookup_of_spares (run : Relation.ReflTransGen (Spares name value) record last)
    (held : record.values.lookup name = some value) : last.values.lookup name = some value := by
  induction run with
  | refl => exact held
  | tail _ step ih => exact step.lookup ih

end Record

open Record (Spares)

/-- **Switching schemas back and forth loses nothing.** Each field of a record has a value, and when
the record has been migrated any number of times, to schemas that have no field of that name or one
of the value's kind, and has had other fields changed in between, then back under its first schema
the field has that value. -/
theorem Part.Built.migrate_back {record : Record} (built : Part.Built (.record record))
    {field : Field} (member : field ∈ record.schema.fields) :
    ∃ value, record.get? field.name = some value ∧
      ∀ last, Relation.ReflTransGen (Spares field.name value) record last →
        (last.migrate record.schema).get? field.name = some value := by
  obtain ⟨schema, filled⟩ := Record.sound_iff.mp built.sound
  obtain ⟨value, held, accepts⟩ := filled.fields field member
  have inSchema : field.name ∈ record.schema.names := List.mem_map_of_mem member
  refine ⟨value, (record.get?_of_mem inSchema).trans held, fun last run => ?_⟩
  rw [last.get?_migrate schema.unique member, Record.lookup_of_spares run held,
    Field.settle_of_accepts accepts]

/-- A schema in which the time is a number of another width, with another default. -/
def Schema.wide : Schema := ⟨[.integer "Timestamp" false 8 5, .empty "memo" .bytes]⟩

/-- A time is set, lies dormant under Bitcoin's schema while the lock time is changed, is seen as a
wider number while a memo is added, and is back at last. -/
theorem Part.Built.migrate_back_wide :
    let timed := Preset.peercoin.layout.transaction
    ∃ tx locked last, (Record.new timed).set "Timestamp" (.int 7) = .ok tx ∧
      (tx.migrate Preset.bitcoinTransaction).set "nLockTime" (.int 99) = .ok locked ∧
      (locked.migrate .wide).set "memo" (.bytes [1]) = .ok last ∧
      Part.Built (.record tx) ∧ tx.get? "Timestamp" = some (.int 7) ∧
      Relation.ReflTransGen (Spares "Timestamp" (.int 7)) tx last ∧
      (last.migrate timed).get? "Timestamp" = some (.int 7) := by
  intro timed
  obtain ⟨tx, set, schema, seen, locked, lock, last, memo⟩ :
      ∃ tx, (Record.new timed).set "Timestamp" (.int 7) = .ok tx ∧ tx.schema = timed ∧
        tx.get? "Timestamp" = some (.int 7) ∧
        ∃ locked, (tx.migrate Preset.bitcoinTransaction).set "nLockTime" (.int 99) = .ok locked ∧
        ∃ last, (locked.migrate .wide).set "memo" (.bytes [1]) = .ok last :=
    ⟨_, rfl, rfl, rfl, _, rfl, _, rfl⟩
  have built : Part.Built (.schema timed) :=
    Preset.builtin_built .peercoin (by simp [Preset.builtin]) .transaction
  have ofTx : Part.Built (.record tx) := .set (.new built) (.int 7) set
  have member : Field.integer "Timestamp" true 4 0 ∈ tx.schema.fields := by
    simp [schema, timed, Preset.peercoin, Preset.ofTransaction, Preset.timedFields]
  have hidden : Spares "Timestamp" (.int 7) tx (tx.migrate Preset.bitcoinTransaction) :=
    .migrate _ (by decide)
  have widened : Spares "Timestamp" (.int 7) locked (locked.migrate .wide) :=
    .migrate _ (by decide)
  have run : Relation.ReflTransGen (Spares "Timestamp" (.int 7)) tx last :=
    .tail (.tail (.tail (.single hidden) (.set (by decide) lock)) widened) (.set (by decide) memo)
  obtain ⟨value, held, back⟩ := ofTx.migrate_back member
  obtain rfl : Value.int 7 = value := Option.some.inj (seen.symm.trans held)
  exact ⟨tx, locked, last, set, lock, memo, ofTx, seen, run, schema ▸ back last run⟩

end LedgerScript
