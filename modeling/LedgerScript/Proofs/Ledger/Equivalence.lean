import LedgerScript.Chain.Preset
import LedgerScript.Proofs.Ledger.Flat
import Mathlib.Data.List.Forall2

/-!
How far agreement in content is an equivalence.

A record agrees with itself, and agreement goes both ways. But what stands for a field that one of
two records lacks is the default of the other, so it differs from partner to partner: two records
that agree with a third need not agree with each other where their schemas give a field different
defaults that the third has no field for.
-/
namespace LedgerScript

/-- The transactions of a value, if it has any, have a property. -/
def Value.All (p : Record → Prop) (value : Value) : Prop :=
  ∀ list, value = .transactions list → ∀ tx ∈ list, p tx

theorem Value.all_below {value : Value} {n : Nat} (h : sizeOf value < n) :
    value.All fun tx => sizeOf tx < n := by
  rintro list rfl tx member
  have inList := List.sizeOf_lt_of_mem member
  rw [Value.transactions.sizeOf_spec] at h
  omega

/-- Two values are lists of transactions that are related one by one, or the same. -/
inductive Value.Matches (related : Record → Record → Prop) : Value → Value → Prop
  | same {value : Value} (apart : ∀ list, value ≠ .transactions list) : Matches related value value
  | transactions {xs ys : List Record} (each : List.Forall₂ related xs ys) :
      Matches related (.transactions xs) (.transactions ys)

theorem sameContents_iff {xs ys : List Record} :
    sameContents xs ys = true ↔ List.Forall₂ (fun x y => x.sameContent y = true) xs ys := by
  induction xs generalizing ys with
  | nil => cases ys <;> simp [sameContents]
  | cons x xs ih => cases ys <;> simp [sameContents, ih]

theorem Value.sameContent_iff_matches {v w : Value} :
    v.sameContent w = true ↔ v.Matches (fun x y => x.sameContent y = true) w := by
  constructor
  · intro h
    cases w with
    | transactions ys =>
      cases v with
      | transactions xs =>
        rw [Value.sameContent, sameContents_iff] at h
        exact .transactions h
      | int | bytes | inputs | outputs => simp [Value.sameContent] at h
    | int | bytes | inputs | outputs =>
      rw [(Value.sameContent_iff_eq (by simp)).mp h]
      exact .same (by simp)
  · rintro (apart | each)
    · exact (Value.sameContent_iff_eq apart).mpr rfl
    · rw [Value.sameContent, sameContents_iff]
      exact each

namespace Value.Matches

variable {p : Record → Prop} {related : Record → Record → Prop} {u v w : Value}

theorem of_self (h : v.All fun tx => related tx tx) : v.Matches related v := by
  cases v with
  | transactions list => exact .transactions (List.forall₂_same.mpr (h list rfl))
  | int | bytes | inputs | outputs => exact .same (by simp)

theorem flip (turn : ∀ x y, p x → p y → related x y → related y x) (hv : v.All p) (hw : w.All p)
    (h : v.Matches related w) : w.Matches related v := by
  cases h with
  | same apart => exact .same apart
  | @transactions xs ys each =>
    have hx : ∀ x ∈ xs, p x := hv xs rfl
    have hy : ∀ y ∈ ys, p y := hw ys rfl
    clear hv hw
    refine .transactions ?_
    induction each with
    | nil => exact .nil
    | cons first others ih =>
      rw [List.forall_mem_cons] at hx hy
      exact .cons (turn _ _ hx.1 hy.1 first) (ih hx.2 hy.2)

theorem join (carry : ∀ x y z, p x → p y → p z → related x y → related y z → related x z)
    (hu : u.All p) (hv : v.All p) (hw : w.All p) (first : u.Matches related v)
    (second : v.Matches related w) : u.Matches related w := by
  cases first with
  | same => exact second
  | @transactions xs ys each =>
    cases second with
    | same apart => exact absurd rfl (apart ys)
    | @transactions _ zs each' =>
      have hx : ∀ x ∈ xs, p x := hu xs rfl
      have hy : ∀ y ∈ ys, p y := hv ys rfl
      have hz : ∀ z ∈ zs, p z := hw zs rfl
      clear hu hv hw
      refine .transactions ?_
      induction each generalizing zs with
      | nil =>
        cases each'
        exact .nil
      | cons first others ih =>
        cases each' with
        | cons first' others' =>
          rw [List.forall_mem_cons] at hx hy hz
          exact .cons (carry _ _ _ hx.1 hy.1 hz.1 first first') (ih others' hx.2 hy.2 hz.2)

end Value.Matches

/-- The default that the schema gives a name. -/
def Schema.default? (schema : Schema) (name : String) : Option Value :=
  (schema.field? name).map Field.default

namespace Record

/-- What a record has of its own for a name: the value it holds, else the default. -/
def own? (record : Record) (name : String) : Option Value :=
  (record.get? name).or (record.schema.default? name)

theorem effective?_eq (record : Record) (other : Schema) (name : String) :
    record.effective? other name = (record.own? name).or (other.default? name) := by
  unfold effective? own? Schema.default?
  cases record.get? name with
  | some value => rfl
  | none => cases record.schema.field? name <;> rfl

theorem own?_eq_none_iff {record : Record} {name : String} :
    record.own? name = none ↔ record.schema.default? name = none := by
  unfold own? Schema.default? get? Schema.contains
  cases record.schema.field? name <;> simp

theorem default?_of_own? {record : Record} {name : String} {value : Value}
    (h : record.own? name = some value) : ∃ d, record.schema.default? name = some d := by
  rw [← Option.ne_none_iff_exists', ne_eq, ← own?_eq_none_iff, h]
  exact Option.some_ne_none value

theorem own?_eq_none_of_notMem {record : Record} {name : String}
    (h : name ∉ record.schema.names) : record.own? name = none := by
  rw [own?_eq_none_iff, Schema.default?, Option.map_eq_none_iff, Schema.field?,
    List.find?_eq_none]
  rintro field member same
  exact h (List.mem_map.mpr ⟨field, member, by simpa using same⟩)

/-- Two records agree on a name by what they have of their own; where one of them has nothing, it is
the default of the other that counts. -/
def AgreeOn (name : String) (a b : Record) : Prop :=
  match a.own? name, b.own? name with
  | some v, some w => v.sameContent w = true
  | some v, none => ∀ d, a.schema.default? name = some d → v.sameContent d = true
  | none, some w => ∀ d, b.schema.default? name = some d → d.sameContent w = true
  | none, none => True

theorem agree_effective?_iff {a b : Record} {name : String} :
    agree (a.effective? b.schema name) (b.effective? a.schema name) = true ↔ AgreeOn name a b := by
  have lacksA : a.own? name = none ↔ a.schema.default? name = none := own?_eq_none_iff
  have lacksB : b.own? name = none ↔ b.schema.default? name = none := own?_eq_none_iff
  rw [effective?_eq, effective?_eq, AgreeOn]
  cases ha : a.own? name <;> cases hb : b.own? name <;>
    cases da : a.schema.default? name <;> cases db : b.schema.default? name <;>
    simp_all [agree]

/-- **Agreement by what each record has of its own**, name by name. -/
theorem sameContent_iff_agreeOn {a b : Record} :
    a.sameContent b = true ↔ ∀ name, AgreeOn name a b := by
  rw [sameContent_iff]
  constructor
  · intro h name
    by_cases member : name ∈ a.schema.names ++ b.schema.names
    · exact agree_effective?_iff.mp (h name member)
    · rw [List.mem_append, not_or] at member
      rw [AgreeOn, own?_eq_none_of_notMem member.1, own?_eq_none_of_notMem member.2]
      trivial
  · exact fun h name _ => agree_effective?_iff.mpr (h name)

/-- The value is one that can count for a name: the record's own, or the default. -/
def Counts (record : Record) (value : Value) : Prop :=
  ∃ name, record.own? name = some value ∨ record.schema.default? name = some value

theorem counts_own {record : Record} {name : String} {value : Value}
    (h : record.own? name = some value) : record.Counts value := ⟨name, .inl h⟩

theorem counts_default {record : Record} {name : String} {value : Value}
    (h : record.schema.default? name = some value) : record.Counts value := ⟨name, .inr h⟩

theorem Counts.cases {record : Record} {value : Value} (h : record.Counts value) :
    (∃ name, record.get? name = some value) ∨
      ∃ name field, record.schema.field? name = some field ∧ field.default = value := by
  obtain ⟨name, own | given⟩ := h
  · obtain held | ⟨-, given⟩ := Option.or_eq_some_iff.mp own
    · exact .inl ⟨name, held⟩
    · exact .inr ⟨name, Option.map_eq_some_iff.mp given⟩
  · exact .inr ⟨name, Option.map_eq_some_iff.mp given⟩

theorem Counts.sizeOf_lt {record : Record} {value : Value} (h : record.Counts value) :
    sizeOf value < sizeOf record := by
  obtain ⟨name, held⟩ | ⟨name, field, found, rfl⟩ := h.cases
  · exact sizeOf_get? held
  · exact Nat.lt_trans (Schema.sizeOf_default found) record.sizeOf_schema

theorem AgreeOn.flip {q : Value → Prop} {a b : Record} (inA : ∀ v, a.Counts v → q v)
    (inB : ∀ v, b.Counts v → q v)
    (turn : ∀ v w, q v → q w → v.sameContent w = true → w.sameContent v = true) {name : String}
    (h : AgreeOn name a b) : AgreeOn name b a := by
  unfold AgreeOn at h ⊢
  match ha : a.own? name, hb : b.own? name with
  | none, none => trivial
  | some v, some w =>
    rw [ha, hb] at h
    exact turn v w (inA v (counts_own ha)) (inB w (counts_own hb)) h
  | some v, none =>
    rw [ha, hb] at h
    intro d given
    exact turn v d (inA v (counts_own ha)) (inA d (counts_default given)) (h d given)
  | none, some w =>
    rw [ha, hb] at h
    intro d given
    exact turn d w (inB d (counts_default given)) (inB w (counts_own hb)) (h d given)

/-- **A record agrees with itself.** -/
theorem sameContent_self (record : Record) : record.sameContent record = true := by
  rw [sameContent_iff_agreeOn]
  intro name
  unfold AgreeOn
  cases own : record.own? name with
  | none => trivial
  | some value =>
    refine Value.sameContent_iff_matches.mpr (.of_self fun list same tx member => ?_)
    have smaller := Value.all_below (counts_own own).sizeOf_lt list same tx member
    exact sameContent_self tx
termination_by sizeOf record

/-- **Agreement goes both ways.** -/
theorem sameContent_symm {a b : Record} (h : a.sameContent b = true) : b.sameContent a = true := by
  let p (tx : Record) : Prop := sizeOf tx < max (sizeOf a) (sizeOf b)
  have within {r : Record} (small : sizeOf r ≤ max (sizeOf a) (sizeOf b)) (v : Value)
      (counts : r.Counts v) : v.All p :=
    Value.all_below (Nat.lt_of_lt_of_le counts.sizeOf_lt small)
  have turn (v w : Value) (hv : v.All p) (hw : w.All p) (same : v.sameContent w = true) :
      w.sameContent v = true := by
    rw [Value.sameContent_iff_matches] at same ⊢
    exact same.flip (fun x y (_ : sizeOf x < _) (_ : sizeOf y < _) => sameContent_symm) hv hw
  rw [sameContent_iff_agreeOn] at h ⊢
  exact fun name => (h name).flip (within (by omega)) (within (by omega)) turn
termination_by max (sizeOf a) (sizeOf b)

end Record

/-- Where one of the schemas has no field of a name, all that have one give it the same default. -/
def Schema.Agreeing (schemas : Schema → Prop) : Prop :=
  ∀ r s t, schemas r → schemas s → schemas t → ∀ name d e, r.default? name = none →
    s.default? name = some d → t.default? name = some e → d.sameContent e = true

theorem Value.sameContent_self (value : Value) : value.sameContent value = true :=
  Value.sameContent_iff_matches.mpr (.of_self fun _ _ tx _ => tx.sameContent_self)

theorem Value.sameContent_symm {v w : Value} (h : v.sameContent w = true) :
    w.sameContent v = true := by
  rw [Value.sameContent_iff_matches] at h ⊢
  have turn (x y : Record) (_ _ : True) : x.sameContent y = true → y.sameContent x = true :=
    Record.sameContent_symm
  exact h.flip turn (fun _ _ _ _ => trivial) fun _ _ _ _ => trivial

/-- Schemas that take the defaults of their fields from one place agree. -/
theorem Schema.agreeing_of_standard (standard : String → Value) :
    Schema.Agreeing fun schema => ∀ field ∈ schema.fields, field.default = standard field.name := by
  have settled {schema : Schema} (h : ∀ field ∈ schema.fields, field.default = standard field.name)
      {name : String} {d : Value} (given : schema.default? name = some d) : d = standard name := by
    obtain ⟨field, found, rfl⟩ := Option.map_eq_some_iff.mp given
    have named : field.name = name := by simpa using List.find?_some found
    rw [h field (List.mem_of_find?_eq_some found), named]
  intro r s t _ hs ht name d e _ given given'
  rw [settled hs given, settled ht given']
  exact Value.sameContent_self _

namespace Record

theorem AgreeOn.join {schemas : Schema → Prop} (agreeing : Schema.Agreeing schemas)
    {a b c : Record} (ofA : schemas a.schema) (ofB : schemas b.schema) (ofC : schemas c.schema)
    {q : Value → Prop} (inA : ∀ v, a.Counts v → q v) (inB : ∀ v, b.Counts v → q v)
    (inC : ∀ v, c.Counts v → q v)
    (carry : ∀ u v w, q u → q v → q w →
      u.sameContent v = true → v.sameContent w = true → u.sameContent w = true)
    {name : String} (ab : AgreeOn name a b) (bc : AgreeOn name b c) : AgreeOn name a c := by
  unfold AgreeOn at ab bc ⊢
  match ha : a.own? name, hb : b.own? name, hc : c.own? name with
  | none, _, none => trivial
  | some u, some v, some w =>
    rw [ha, hb] at ab
    rw [hb, hc] at bc
    exact carry u v w (inA u (counts_own ha)) (inB v (counts_own hb)) (inC w (counts_own hc)) ab bc
  | some u, none, none =>
    rw [ha, hb] at ab
    exact ab
  | none, none, some w =>
    rw [hb, hc] at bc
    exact bc
  -- where one of the three has nothing, the defaults of the other two stand for each other
  | some u, none, some w =>
    rw [ha, hb] at ab
    rw [hb, hc] at bc
    obtain ⟨d, given⟩ := default?_of_own? ha
    obtain ⟨e, given'⟩ := default?_of_own? hc
    have qu := inA u (counts_own ha)
    have qd := inA d (counts_default given)
    have qe := inC e (counts_default given')
    have qw := inC w (counts_own hc)
    have same : d.sameContent e = true :=
      agreeing _ _ _ ofB ofA ofC name d e (own?_eq_none_iff.mp hb) given given'
    have ue : u.sameContent e = true := carry u d e qu qd qe (ab d given) same
    exact carry u e w qu qe qw ue (bc e given')
  | some u, some v, none =>
    rw [ha, hb] at ab
    rw [hb, hc] at bc
    obtain ⟨e, given'⟩ := default?_of_own? hb
    intro d given
    have qu := inA u (counts_own ha)
    have qv := inB v (counts_own hb)
    have qe := inB e (counts_default given')
    have qd := inA d (counts_default given)
    have same : e.sameContent d = true :=
      agreeing _ _ _ ofC ofB ofA name e d (own?_eq_none_iff.mp hc) given' given
    have ue : u.sameContent e = true := carry u v e qu qv qe ab (bc e given')
    exact carry u e d qu qe qd ue same
  | none, some v, some w =>
    rw [ha, hb] at ab
    rw [hb, hc] at bc
    obtain ⟨e, given'⟩ := default?_of_own? hb
    intro d given
    have qd := inC d (counts_default given)
    have qe := inB e (counts_default given')
    have qv := inB v (counts_own hb)
    have qw := inC w (counts_own hc)
    have same : d.sameContent e = true :=
      agreeing _ _ _ ofA ofC ofB name d e (own?_eq_none_iff.mp ha) given given'
    have dv : d.sameContent v = true := carry d e v qd qe qv same (ab e given')
    exact carry d v w qd qv qw dv bc

/-- The schemas of a record, of the transactions in its values and in the defaults of its schema,
and so on at every depth, are among these. -/
inductive Over (schemas : Schema → Prop) : Record → Prop
  | intro {record : Record} (own : schemas record.schema)
      (values : ∀ name list, record.get? name = some (.transactions list) →
        ∀ tx ∈ list, Over schemas tx)
      (defaults : ∀ field ∈ record.schema.fields, ∀ list, field.default = .transactions list →
        ∀ tx ∈ list, Over schemas tx) : Over schemas record

theorem Over.schema {schemas : Schema → Prop} {record : Record} (h : record.Over schemas) :
    schemas record.schema := by
  cases h
  assumption

theorem Over.all {schemas : Schema → Prop} {record : Record} (h : record.Over schemas)
    {value : Value} (counts : record.Counts value) : value.All (·.Over schemas) := by
  obtain ⟨own, values, defaults⟩ := h
  rintro list rfl
  obtain ⟨name, held⟩ | ⟨name, field, found, given⟩ := counts.cases
  · exact values name list held
  · exact defaults field (List.mem_of_find?_eq_some found) list given

/-- It is enough to look at the values that the record holds, dormant ones included. -/
theorem Over.of_values {schemas : Schema → Prop} {record : Record} (own : schemas record.schema)
    (values : ∀ list ∈ record.values.filterMap fun p => p.2.asTransactions?,
      ∀ tx ∈ list, Over schemas tx)
    (defaults : ∀ list ∈ record.schema.fields.filterMap fun f => f.default.asTransactions?,
      ∀ tx ∈ list, Over schemas tx) : Over schemas record := by
  refine .intro own (fun name list found => values list (transactions_of_get? found)) ?_
  exact fun field member list given =>
    defaults list (List.mem_filterMap.mpr ⟨field, member, by rw [given]; rfl⟩)

/-- **Over agreeing schemas agreement carries over** from one record to the next. -/
theorem sameContent_trans {schemas : Schema → Prop} (agreeing : Schema.Agreeing schemas)
    {a b c : Record} (overA : a.Over schemas) (overB : b.Over schemas) (overC : c.Over schemas)
    (ab : a.sameContent b = true) (bc : b.sameContent c = true) : a.sameContent c = true := by
  let bound := max (sizeOf a) (max (sizeOf b) (sizeOf c))
  let p (tx : Record) : Prop := tx.Over schemas ∧ sizeOf tx < bound
  have within {r : Record} (inside : r.Over schemas) (small : sizeOf r ≤ bound) (v : Value)
      (counts : r.Counts v) : v.All p := fun list same tx member =>
    ⟨inside.all counts list same tx member,
      Value.all_below (Nat.lt_of_lt_of_le counts.sizeOf_lt small) list same tx member⟩
  have carry (u v w : Value) (hu : u.All p) (hv : v.All p) (hw : w.All p)
      (first : u.sameContent v = true) (second : v.sameContent w = true) :
      u.sameContent w = true := by
    rw [Value.sameContent_iff_matches] at first second ⊢
    refine first.join (fun x y z ⟨overX, _⟩ ⟨overY, _⟩ ⟨overZ, _⟩ => ?_) hu hv hw second
    exact sameContent_trans agreeing overX overY overZ
  rw [sameContent_iff_agreeOn] at ab bc ⊢
  intro name
  exact (ab name).join agreeing overA.schema overB.schema overC.schema (within overA (by omega))
    (within overB (by omega)) (within overC (by omega)) carry (bc name)
termination_by max (sizeOf a) (max (sizeOf b) (sizeOf c))

end Record

namespace Entity

theorem sameContent_iff {a b : Entity} :
    a.sameContent b = true ↔ a.kind = b.kind ∧ a.record.sameContent b.record = true := by
  rw [sameContent, Bool.and_eq_true, beq_iff_eq]

/-- **Agreement is an equivalence over agreeing schemas**: every entity agrees with itself and
agreement goes both ways, whatever the schemas are, and it carries over from one entity to the next
where the schemas agree on the defaults of the fields that some of them lack. -/
theorem sameContent_equivalence {schemas : Schema → Prop} (agreeing : Schema.Agreeing schemas) :
    (∀ a : Entity, a.sameContent a = true) ∧
    (∀ a b : Entity, a.sameContent b = true → b.sameContent a = true) ∧
    ∀ a b c : Entity, a.record.Over schemas → b.record.Over schemas → c.record.Over schemas →
      a.sameContent b = true → b.sameContent c = true → a.sameContent c = true := by
  refine ⟨fun a => ?_, fun a b ab => ?_, fun a b c overA overB overC ab bc => ?_⟩
  · exact sameContent_iff.mpr ⟨rfl, a.record.sameContent_self⟩
  · obtain ⟨kind, content⟩ := sameContent_iff.mp ab
    exact sameContent_iff.mpr ⟨kind.symm, Record.sameContent_symm content⟩
  · obtain ⟨kind, content⟩ := sameContent_iff.mp ab
    obtain ⟨kind', content'⟩ := sameContent_iff.mp bc
    exact sameContent_iff.mpr ⟨kind.trans kind',
      Record.sameContent_trans agreeing overA overB overC content content'⟩

/-- A number of four bytes, and zero by default. -/
def amount (name : String) : Field := .integer name true 4 0

/-- A body with one amount, which is zero, and a transaction of another schema. -/
def withAmount (name : String) (tx : Schema) : Entity where
  kind := .blockBody
  record := ⟨⟨[.empty "vtx" .transactions, amount name]⟩,
    [("vtx", .transactions [.new tx]), (name, .int 0)]⟩

/-- Each body has an amount that the others lack, and so has each transaction. -/
theorem sameContent_equivalence_amounts :
    let standard (name : String) : Value := if name = "vtx" then .transactions [] else .int 0
    let schemas (s : Schema) : Prop := ∀ field ∈ s.fields, field.default = standard field.name
    let a := withAmount "nonce" ⟨[]⟩
    let b := withAmount "fee" ⟨[amount "fee"]⟩
    let c := withAmount "bits" ⟨[amount "nonce"]⟩
    Schema.Agreeing schemas ∧ a.record.Over schemas ∧ b.record.Over schemas ∧
      c.record.Over schemas ∧ a.sameContent b = true ∧ b.sameContent c = true ∧
      a.sameContent c = true := by
  intro standard schemas a b c
  have agreeing : Schema.Agreeing schemas := Schema.agreeing_of_standard standard
  have inner (tx : Schema) (h : tx = ⟨[]⟩ ∨ tx = ⟨[amount "fee"]⟩ ∨ tx = ⟨[amount "nonce"]⟩) :
      (Record.new tx).Over schemas := by
    obtain rfl | rfl | rfl := h <;> apply Record.Over.of_values <;>
      simp [Record.new, amount, Field.integer, schemas, standard, Value.asTransactions?]
  have outer (name : String) (apart : name ≠ "vtx") (tx : Schema)
      (h : (Record.new tx).Over schemas) : (withAmount name tx).record.Over schemas := by
    apply Record.Over.of_values <;>
      simp [withAmount, amount, Field.empty, Field.integer, Encoding.emptyValue, schemas, standard,
        Value.asTransactions?, apart, h]
  have overA : a.record.Over schemas := outer "nonce" (by decide) _ (inner _ (.inl rfl))
  have overB : b.record.Over schemas := outer "fee" (by decide) _ (inner _ (.inr (.inl rfl)))
  have overC : c.record.Over schemas := outer "bits" (by decide) _ (inner _ (.inr (.inr rfl)))
  have ab : a.sameContent b = true := by decide +kernel
  have bc : b.sameContent c = true := by decide +kernel
  exact ⟨agreeing, overA, overB, overC, ab, bc,
    (sameContent_equivalence agreeing).2.2 a b c overA overB overC ab bc⟩

/-- A transaction of defaults, with a fee if there is a default for it. -/
def ofDefaults (fee : Option Int64) : Entity where
  kind := .transaction
  record := .new ⟨.integer "nVersion" true 4 0 :: (fee.map (.integer "fee" true 4)).toList⟩

/-- The defaults of a fee may differ: the transaction without one agrees with the one whose fee is
zero by default, that one with a transaction whose fee has been set to zero, and the first not with
the last, which has to have the fee that its own schema gives it. -/
theorem sameContent_not_transitive :
    (∀ fee ∈ [none, some 0, some 1], (ofDefaults fee).record.schema.names.Nodup) ∧
    ∃ free, (ofDefaults (some 1)).record.set "fee" (.int 0) = .ok free ∧
      (ofDefaults none).sameContent (ofDefaults (some 0)) = true ∧
      (ofDefaults (some 0)).sameContent ⟨.transaction, free⟩ = true ∧
      (ofDefaults none).sameContent ⟨.transaction, free⟩ = false := by
  have unique : ∀ fee ∈ [none, some 0, some 1], (ofDefaults fee).record.schema.names.Nodup := by
    simp [ofDefaults, Record.new, Schema.names, Field.integer]
  exact ⟨unique, _, rfl, by decide +kernel, by decide +kernel, by decide +kernel⟩

end Entity
end LedgerScript
