import LedgerScript.Ledger.Record

/-!
Content: what a record says, whichever schema it says it in.

A record without a field counts as having the default of that field, as the other record's schema
gives it. Two records have the same content when they agree on every name of either schema;
dormant values do not count.
-/
namespace LedgerScript

/-- The value that counts for a name: the record's own, else its schema's default, else the
default of the other schema. -/
def Record.effective? (record : Record) (other : Schema) (name : String) : Option Value :=
  match record.get? name with
  | some value => some value
  | none =>
    match record.schema.field? name with
    | some field => some field.default
    | none => (other.field? name).map Field.default

theorem Schema.sizeOf_default {schema : Schema} {name : String} {field : Field}
    (h : schema.field? name = some field) : sizeOf field.default < sizeOf schema := by
  have mem := List.sizeOf_lt_of_mem (List.mem_of_find?_eq_some h)
  obtain ⟨fields⟩ := schema
  obtain ⟨_, _, _, default⟩ := field
  simp only [Field.mk.sizeOf_spec, Schema.mk.sizeOf_spec] at *
  omega

theorem sizeOf_lookup {values : List (String × Value)} {name : String} {value : Value}
    (h : values.lookup name = some value) : sizeOf value < sizeOf values := by
  induction values with
  | nil => simp at h
  | cons p rest ih =>
    obtain ⟨n, v⟩ := p
    rw [List.lookup_cons] at h
    split at h
    · cases h
      simp only [List.cons.sizeOf_spec, Prod.mk.sizeOf_spec]
      omega
    · have := ih h
      simp only [List.cons.sizeOf_spec]
      omega

theorem Record.sizeOf_get? {record : Record} {name : String} {value : Value}
    (h : record.get? name = some value) : sizeOf value < sizeOf record := by
  unfold get? at h
  split at h
  · have := sizeOf_lookup h
    obtain ⟨schema, values⟩ := record
    simp only [Record.mk.sizeOf_spec] at *
    omega
  · simp at h

theorem Record.sizeOf_schema (record : Record) : sizeOf record.schema < sizeOf record := by
  obtain ⟨schema, values⟩ := record
  simp only [Record.mk.sizeOf_spec]
  omega

theorem Record.sizeOf_values (record : Record) : sizeOf record.values < sizeOf record := by
  obtain ⟨schema, values⟩ := record
  simp only [Record.mk.sizeOf_spec]
  omega

theorem Record.sizeOf_effective? {record other : Record} {name : String} {value : Value}
    (h : record.effective? other.schema name = some value) :
    sizeOf value < max (sizeOf record) (sizeOf other) := by
  have own := record.sizeOf_schema
  have others := other.sizeOf_schema
  unfold effective? at h
  split at h
  · next found =>
    cases h
    have := sizeOf_get? found
    omega
  · split at h
    · next found =>
      cases h
      have := Schema.sizeOf_default found
      omega
    · obtain ⟨field, found, rfl⟩ := Option.map_eq_some_iff.mp h
      have := Schema.sizeOf_default found
      omega

mutual

/-- Whether two values are equal, transactions being compared by content. -/
def Value.sameContent (a b : Value) : Bool :=
  match a, b with
  | .int m, .int n => m == n
  | .bytes x, .bytes y => x == y
  | .inputs xs, .inputs ys => xs == ys
  | .outputs xs, .outputs ys => xs == ys
  | .transactions xs, .transactions ys => sameContents xs ys
  | _, _ => false
termination_by max (sizeOf a) (sizeOf b)
decreasing_by simp only [Value.transactions.sizeOf_spec]; omega

/-- Whether two records agree on every name of either schema. -/
def Record.sameContent (a b : Record) : Bool :=
  (a.schema.names ++ b.schema.names).all fun name =>
    match _ha : a.effective? b.schema name, _hb : b.effective? a.schema name with
    | some v, some w => v.sameContent w
    | none, none => true
    | _, _ => false
termination_by max (sizeOf a) (sizeOf b)
decreasing_by
  have := Record.sizeOf_effective? _ha
  have := Record.sizeOf_effective? _hb
  omega

def sameContents (xs ys : List Record) : Bool :=
  match xs, ys with
  | [], [] => true
  | x :: xs, y :: ys => x.sameContent y && sameContents xs ys
  | _, _ => false
termination_by max (sizeOf xs) (sizeOf ys)
decreasing_by all_goals simp only [List.cons.sizeOf_spec]; omega

end

/-- Whether two values that count for a name agree. -/
def agree : Option Value → Option Value → Bool
  | some v, some w => v.sameContent w
  | none, none => true
  | _, _ => false

theorem Record.sameContent_eq (a b : Record) :
    a.sameContent b = (a.schema.names ++ b.schema.names).all fun name =>
      agree (a.effective? b.schema name) (b.effective? a.schema name) := by
  rw [Record.sameContent]
  congr 1
  funext name
  split <;> simp_all [agree]

theorem Record.sameContent_iff (a b : Record) :
    a.sameContent b = true ↔ ∀ name ∈ a.schema.names ++ b.schema.names,
      agree (a.effective? b.schema name) (b.effective? a.schema name) = true := by
  rw [Record.sameContent_eq, List.all_eq_true]

end LedgerScript
