import LedgerScript.Proofs.Ledger.Complete
import LedgerScript.Proofs.Ledger.Delimited
import LedgerScript.Proofs.Wire.Integer

namespace LedgerScript

/-- What stops the reading of some fields from a byte string: it is too short, it spells an unsigned
number of eight bytes that no value can hold, or a field declares a width that no integer has. -/
inductive Error.OfReader (fields : List Field) (input : Bytes) : Error → Prop where
  | truncated {needed remaining : Nat} (lacks : remaining < needed) :
      OfReader fields input (.truncated needed remaining)
  | overflow {field : Field} {format : IntegerFormat} {raw : Bytes} (member : field ∈ fields)
      (encoding : field.encoding = .integer format) (unsigned : format.signed = false)
      (width : format.width = 8) (length : raw.length = 8) (inside : raw <:+: input)
      (large : Int64.maxValue.toInt < Bytes.toNatLE (format.arrange raw)) :
      OfReader fields input (.overflow field.name (Bytes.toNatLE (format.arrange raw)) 8)
  | unsupported {field : Field} {format : IntegerFormat} (member : field ∈ fields)
      (encoding : field.encoding = .integer format) (width : format.width = 0 ∨ 8 < format.width) :
      OfReader fields input (.unsupportedEncoding (.integerWidth field.name format.width))

theorem Error.OfReader.mono {fields : List Field} {input whole : Bytes} {e : Error}
    (h : e.OfReader fields input) (behind : input <:+ whole) : e.OfReader fields whole := by
  cases h with
  | truncated lacks => exact .truncated lacks
  | overflow member encoding unsigned width length inside large =>
    exact .overflow member encoding unsigned width length (inside.trans behind.isInfix) large
  | unsupported member encoding width => exact .unsupported member encoding width

namespace Decoder

variable {α β : Type}

/-- The bytes that are left, whether the decoder succeeded or failed. -/
def left : EStateM.Result Error Bytes α → Bytes
  | .ok _ rest => rest
  | .error _ rest => rest

theorem bind_apply (d : Decoder α) (f : α → Decoder β) (input : Bytes) :
    (d >>= f) input = match d input with
      | .ok x mid => f x mid
      | .error e mid => .error e mid := by
  simp only [Bind.bind, EStateM.bind]
  cases d input <;> rfl

/-- The decoder leaves an end of its input, and fails only as readers of the fields do. -/
def Reports (fields : List Field) (d : Decoder α) : Prop :=
  ∀ input, match d input with
    | .ok _ rest => rest <:+ input
    | .error e rest => rest <:+ input ∧ e.OfReader fields input

namespace Reports

variable {fields : List Field} {d d' : Decoder α} {f : α → Decoder β}

theorem of_ok (h : Reports fields d) {input rest : Bytes} {x : α} (ran : d input = .ok x rest) :
    rest <:+ input := by
  have after := h input
  rwa [ran] at after

theorem of_error (h : Reports fields d) {input rest : Bytes} {e : Error}
    (failed : d input = .error e rest) : rest <:+ input ∧ e.OfReader fields input := by
  have after := h input
  rwa [failed] at after

theorem left_suffix (h : Reports fields d) (input : Bytes) : left (d input) <:+ input := by
  cases ran : d input with
  | ok x rest => exact h.of_ok ran
  | error e rest => exact (h.of_error ran).1

theorem pure (x : α) : Reports fields (Pure.pure x : Decoder α) := fun _ => List.suffix_rfl

theorem throw {e : Error} (h : ∀ input, e.OfReader fields input) :
    Reports fields (MonadExcept.throw e : Decoder α) := fun input => ⟨List.suffix_rfl, h input⟩

/-- What is left by the first is what the second goes on with. -/
theorem bind (first : Reports fields d) (second : ∀ x, Reports fields (f x)) :
    Reports fields (d >>= f) := by
  intro input
  rw [bind_apply]
  cases ran : d input with
  | error e mid => exact first.of_error ran
  | ok x mid =>
    have forward := first.of_ok ran
    dsimp only
    cases further : f x mid with
    | ok y rest => exact ((second x).of_ok further).trans forward
    | error e rest =>
      obtain ⟨behind, fault⟩ := (second x).of_error further
      exact ⟨behind.trans forward, fault.mono forward⟩

theorem map {g : α → β} (h : Reports fields d) :
    Reports fields (d >>= fun x => Pure.pure (g x)) :=
  h.bind fun _ => pure _

theorem ite {c : Prop} [Decidable c] (yes : Reports fields d) (no : Reports fields d') :
    Reports fields (if c then d else d') := by
  split
  · exact yes
  · exact no

theorem take (n : Nat) : Reports fields (Decoder.take n) := by
  intro input
  by_cases enough : n ≤ input.length
  · rw [Decoder.take, if_pos enough]
    exact List.drop_suffix n input
  · have lacks := Nat.lt_of_not_le enough
    rw [take_of_lt lacks]
    exact ⟨List.suffix_rfl, .truncated lacks⟩

theorem byte : Reports fields Decoder.byte := by
  intro input
  cases input with
  | nil => exact ⟨List.suffix_rfl, .truncated Nat.one_pos⟩
  | cons b rest => exact List.suffix_cons b rest

theorem natLE (width : Nat) : Reports fields (Decoder.natLE width) := (take width).map

theorem times (each : Reports fields d) (n : Nat) : Reports fields (Decoder.times n d) := by
  induction n with
  | zero => exact pure []
  | succ n ih => exact each.bind fun _ => ih.map

theorem sequence {ds : List (Decoder α)} (each : ∀ d ∈ ds, Reports fields d) :
    Reports fields (Decoder.sequence ds) := by
  induction ds with
  | nil => exact pure []
  | cons d ds ih =>
    rw [List.forall_mem_cons] at each
    exact each.1.bind fun _ => (ih each.2).map

end Reports
end Decoder

open Decoder (Reports left)

section

variable {fields : List Field}

namespace CompactSize

theorem read_reports : Reports fields read :=
  Reports.byte.bind fun _ => .ite (.natLE 2) (.ite (.natLE 4) (.ite (.natLE 8) (.pure _)))

theorem readCount_reports : Reports fields readCount := by
  have own : Reports fields read := read_reports
  intro input
  cases ran : read input with
  | error e mid =>
    rw [readCount, Decoder.bind_apply, ran]
    exact own.of_error ran
  | ok n mid =>
    rw [readCount_apply ran]
    by_cases enough : n ≤ mid.length
    · rw [if_pos enough]
      exact own.of_ok ran
    · rw [if_neg enough]
      exact ⟨own.of_ok ran, .truncated (Nat.lt_of_not_le enough)⟩

theorem readBytes_reports : Reports fields readBytes := readCount_reports.bind fun n => .take n

end CompactSize

theorem Hash.read_reports : Reports fields Hash.read := by
  intro input
  unfold Hash.read
  by_cases enough : 32 ≤ input.length
  · rw [dif_pos enough]
    exact List.drop_suffix 32 input
  · rw [dif_neg enough]
    exact ⟨List.suffix_rfl, .truncated (Nat.lt_of_not_le enough)⟩

theorem readWord32_reports : Reports fields readWord32 := (Reports.natLE 4).map

theorem readWord64_reports : Reports fields readWord64 := (Reports.natLE 8).map

theorem Input.read_reports : Reports fields Input.read :=
  Hash.read_reports.bind fun _ => readWord32_reports.bind fun _ =>
    CompactSize.readBytes_reports.bind fun _ => readWord32_reports.map

theorem Output.read_reports : Reports fields Output.read :=
  readWord64_reports.bind fun _ => CompactSize.readBytes_reports.map

theorem IntegerFormat.read_reports {format : IntegerFormat} {field : Field}
    (member : field ∈ fields) (encoding : field.encoding = .integer format) :
    Reports fields (format.read field.name) := by
  unfold read
  split
  · next supported =>
    have own : Reports fields (Decoder.take format.width) := .take _
    intro input
    rw [Decoder.bind_apply]
    cases taken : Decoder.take format.width input with
    | error e mid => exact own.of_error taken
    | ok raw mid =>
      obtain ⟨rfl, length⟩ := Decoder.take_eq_ok_iff.mp taken
      dsimp only
      by_cases small : format.value raw ≤ Int64.maxValue.toInt
      · rw [if_pos small]
        exact List.suffix_append raw mid
      · rw [if_neg small]
        refine ⟨List.suffix_append raw mid, ?_⟩
        have large := Int.lt_of_not_ge small
        obtain ⟨unsigned, width⟩ := wide_of_large supported length large
        rw [value_of_unsigned unsigned] at large ⊢
        rw [width] at length ⊢
        exact .overflow member encoding unsigned width length (List.prefix_append raw mid).isInfix
          large
  · next refused =>
    refine .throw fun input => .unsupported member encoding ?_
    unfold Supported at refused
    omega

theorem Field.readWith_reports {transaction : Decoder Record} (nested : Reports fields transaction)
    {field : Field} (member : field ∈ fields) : Reports fields (field.readWith transaction) := by
  unfold readWith
  cases encoding : field.encoding with
  | integer format => exact (format.read_reports member encoding).map
  | bytes =>
    cases field.byteLength with
    | none => exact CompactSize.readBytes_reports.map
    | some n => exact (Reports.take n).map
  | inputs => exact CompactSize.readCount_reports.bind fun n => (Input.read_reports.times n).map
  | outputs => exact CompactSize.readCount_reports.bind fun n => (Output.read_reports.times n).map
  | transactions => exact CompactSize.readCount_reports.bind fun n => (nested.times n).map

end

theorem Schema.readWith_reports {schema : Schema} {transaction : Decoder Record}
    (nested : Reports schema.fields transaction) :
    Reports schema.fields (schema.readWith transaction) := by
  refine Reports.map (.sequence fun d listed => ?_)
  obtain ⟨field, member, rfl⟩ := List.mem_map.mp listed
  exact (Field.readWith_reports nested member).map

theorem Schema.readNested_reports (schema : Schema) (depth : Nat) :
    Reports schema.fields (schema.readNested depth) := by
  induction depth with
  | zero => exact .throw fun _ => .truncated Nat.one_pos
  | succ depth ih => exact readWith_reports ih

/-- A record whose transactions have its own schema is refused for its fields only. -/
theorem Schema.read_reports (schema : Schema) : Reports schema.fields (schema.read schema) :=
  fun input => readWith_reports (schema.readNested_reports input.length) input

/-- Reads a field and puts its value into a record. -/
def Field.fill (transaction : Decoder Record) (record : Record) (field : Field) :
    Decoder Record := do
  let value ← field.readWith transaction
  match record.set field.name value with
  | .ok next => pure next
  | .error e => throw e

/-- Reads the fields of a schema one after another into a fresh record. -/
def Schema.fillWith (transaction : Decoder Record) (schema : Schema) : Decoder Record :=
  schema.fields.foldlM (Field.fill transaction) (.new schema)

/-- A value that was read is of the kind of its field, so the record takes it. -/
theorem Field.fill_eq {schema : Schema} (unique : schema.names.Nodup)
    (transaction : Decoder Record) {field : Field} (member : field ∈ schema.fields)
    {before after : List (String × Value)} (apart : field.name ∉ before.map Prod.fst)
    (old : Value) :
    field.fill transaction ⟨schema, before ++ (field.name, old) :: after⟩ =
      field.readWith transaction >>= fun value =>
        pure ⟨schema, before ++ (field.name, value) :: after⟩ := by
  funext input
  rw [fill, Decoder.bind_apply, Decoder.bind_apply]
  cases ran : field.readWith transaction input with
  | error e mid => rfl
  | ok value mid =>
    have accepted := (Field.readWith_yields (Decoder.Yields.any transaction) field ran).1
    have set : Record.set ⟨schema, before ++ (field.name, old) :: after⟩ field.name value =
        .ok ⟨schema, before ++ (field.name, value) :: after⟩ := by
      rw [Record.set_eq_ok_iff]
      exact ⟨field, Schema.field?_of_mem unique member, accepted,
        by rw [Assoc.put_append apart]⟩
    dsimp only
    rw [set]

theorem Schema.fillFrom_eq {schema : Schema} (unique : schema.names.Nodup)
    (transaction : Decoder Record) {front back : List Field} (split : schema.fields = front ++ back)
    {values : List (String × Value)} (named : values.map Prod.fst = front.map Field.name) :
    back.foldlM (Field.fill transaction)
        ⟨schema, values ++ back.map fun f => (f.name, f.default)⟩ =
      Decoder.sequence (back.map (Field.readNamed transaction)) >>= fun others =>
        pure ⟨schema, values ++ others⟩ := by
  induction back generalizing front values with
  | nil => rfl
  | cons field back ih =>
    have member : field ∈ schema.fields := by simp [split]
    have apart : field.name ∉ values.map Prod.fst := by
      rw [Schema.names, split, List.map_append, List.map_cons, List.nodup_append] at unique
      rw [named]
      exact fun stands => unique.2.2 _ stands _ List.mem_cons_self rfl
    have extended (value : Value) : (values ++ [(field.name, value)]).map Prod.fst =
        (front ++ [field]).map Field.name := by
      simp [named]
    have rest (value : Value) := ih (split.trans (List.append_cons front field back))
      (extended value)
    simp only [List.append_assoc, List.singleton_append] at rest
    rw [List.foldlM_cons, List.map_cons, Field.fill_eq unique transaction member apart]
    simp only [bind_assoc, pure_bind, rest, List.map_cons, Decoder.sequence, Field.readNamed]

/-- **Putting the values into a record one by one refuses nothing**: where no name stands twice, it
comes to reading them all. -/
theorem Schema.fillWith_eq {schema : Schema} (unique : schema.names.Nodup)
    (transaction : Decoder Record) : schema.fillWith transaction = schema.readWith transaction := by
  have none : ([] : List (String × Value)).map Prod.fst = ([] : List Field).map Field.name := rfl
  exact Schema.fillFrom_eq unique transaction rfl none

/-- **Reading a record whose transactions have its own schema is a recursion** that nothing but the
bytes bounds. -/
theorem Schema.read_eq_fillWith {schema : Schema} (unique : schema.names.Nodup) :
    schema.read schema = schema.fillWith (schema.read schema) := by
  rw [fillWith_eq unique]
  funext input
  have alike : Decoder.AlikeBelow input.length (schema.read schema)
      (schema.readNested input.length) := by
    intro shorter short
    obtain ⟨depth, length⟩ := Nat.exists_eq_succ_of_ne_zero (Nat.ne_zero_of_lt short)
    rw [length] at short ⊢
    exact schema.read_eq schema (Nat.le_of_lt_succ short)
  have same :=
    schema.readWith_alike alike schema.read_self_delimits.takes input (Nat.lt_succ_self _)
  exact same.symm

/-- Where transactions begin when a record is read, and how deep they are in it: one begins behind
the fields before its list, the count of the list and the transactions before it. -/
inductive Schema.Begins (schema : Schema) (input : Bytes) : Nat → Bytes → Prop where
  | outermost : Begins schema input 0 input
  | nested {depth : Nat} {start mid behind here : Bytes} {front back : List Field} {field : Field}
      {values : List (String × Value)} {count turn : Nat} {txs : List Record}
      (outer : Begins schema input depth start) (split : schema.fields = front ++ field :: back)
      (encoding : field.encoding = .transactions)
      (before : Decoder.sequence (front.map (Field.readNamed (schema.read schema))) start =
        .ok values mid)
      (counted : CompactSize.readCount mid = .ok count behind) (due : turn < count)
      (earlier : Decoder.times turn (schema.read schema) behind = .ok txs here) :
      Begins schema input (depth + 1) here

/-- **Each level of nesting takes a byte at least**: that of the count. -/
theorem Schema.Begins.within {schema : Schema} {input here : Bytes} {depth : Nat}
    (h : schema.Begins input depth here) :
    here <:+ input ∧ here.length + depth ≤ input.length := by
  induction h with
  | outermost => exact ⟨List.suffix_rfl, Nat.le_refl _⟩
  | @nested depth start mid behind here front back field values count turn txs _ split _ before
      counted _ earlier ih =>
    have reader := schema.read_reports
    have listed : Reports schema.fields
        (Decoder.sequence (front.map (Field.readNamed (schema.read schema)))) := by
      refine .sequence fun d member => ?_
      obtain ⟨own, inFront, rfl⟩ := List.mem_map.mp member
      exact (Field.readWith_reports reader (split ▸ List.mem_append_left _ inFront)).map
    have count : Reports schema.fields CompactSize.readCount := CompactSize.readCount_reports
    have behind_mid := CompactSize.readCount_takes counted
    have mid_start := listed.of_ok before
    have here_behind := (reader.times turn).of_ok earlier
    refine ⟨(here_behind.trans (count.of_ok counted)).trans (mid_start.trans ih.1), ?_⟩
    have := mid_start.length_le
    have := here_behind.length_le
    omega

/-- **What is not a record is refused for a reason.** Under a schema in which no name stands twice,
even one whose transactions nest, every byte string is read or refused: it is too short, or a field
is an integer that no value can hold or of a width that there is not, or bytes are left over. The
values of the fields are always taken.

Readers of fields and records leave an end of what they are given, also where they fail; reading is
the recursion that puts the fields one by one into a fresh record; and a transaction that is nested
at some depth begins behind so many bytes at least. -/
theorem Record.ofBytes_refusals {fields : List Field} {schema : Schema}
    (made : Schema.ofFields fields = .ok schema) (b : Bytes) :
    ((∃ tx, ofBytes schema b = .ok tx) ∨ ∃ e, ofBytes schema b = .error e ∧
      (e.OfReader fields b ∨ ∃ count, 1 ≤ count ∧ count ≤ b.length ∧ e = .trailing count)) ∧
    (∀ name, ofBytes schema b ≠ .error (.unknownField name)) ∧
    (∀ name expected, ofBytes schema b ≠ .error (.typeMismatch name expected)) ∧
    schema.read schema = schema.fillWith (schema.read schema) ∧
    (∀ field ∈ fields, ∀ input,
      Decoder.left (field.readWith (schema.read schema) input) <:+ input) ∧
    (∀ input, Decoder.left (schema.read schema input) <:+ input) ∧
    ∀ depth here, schema.Begins b depth here →
      here <:+ b ∧ here.length + depth ≤ b.length := by
  obtain ⟨rfl, unique⟩ := Schema.ofFields_eq_ok_iff.mp made
  have reader : Reports fields (Schema.read ⟨fields⟩ ⟨fields⟩) := Schema.read_reports ⟨fields⟩
  have refused : ∀ e, ofBytes ⟨fields⟩ b = .error e →
      e.OfReader fields b ∨ ∃ count, 1 ≤ count ∧ count ≤ b.length ∧ e = .trailing count := by
    intro e failed
    unfold ofBytes Decoder.whole at failed
    split at failed
    · next e' rest stopped =>
      cases failed
      exact .inl (reader.of_error stopped).2
    · cases failed
    · next tx rest some ran =>
      cases failed
      exact .inr ⟨_, List.length_pos_iff.mpr some, (reader.of_ok ran).length_le, rfl⟩
  refine ⟨?_, ?_, ?_, Schema.read_eq_fillWith unique,
    fun field member => (Field.readWith_reports reader member).left_suffix, reader.left_suffix,
    fun depth here => Schema.Begins.within⟩
  · cases result : ofBytes ⟨fields⟩ b with
    | ok tx => exact .inl ⟨tx, rfl⟩
    | error e => exact .inr ⟨e, rfl, refused e result⟩
  · intro name failed
    obtain fault | ⟨_, -, -, same⟩ := refused _ failed
    · cases fault
    · cases same
  · intro name expected failed
    obtain fault | ⟨_, -, -, same⟩ := refused _ failed
    · cases fault
    · cases same

/-- A list of transactions of the same kind, and a number. -/
def Schema.counting : Schema :=
  ⟨[⟨"inner", .transactions, none, .transactions []⟩,
    ⟨"n", .integer ⟨.little, false, 8⟩, none, .int 0⟩]⟩

/-- The number of the transaction inside is too large. That transaction begins behind a byte. -/
theorem Record.ofBytes_refusals_counting :
    let inner : Bytes := 0 :: List.replicate 8 0xff
    Schema.ofFields Schema.counting.fields = .ok .counting ∧
      ofBytes .counting (1 :: inner) = .error (.overflow "n" 0xffffffffffffffff 8) ∧
      (Error.overflow "n" 0xffffffffffffffff 8).OfReader Schema.counting.fields (1 :: inner) ∧
      Schema.counting.Begins (1 :: inner) 1 inner ∧
      inner <:+ 1 :: inner ∧ inner.length + 1 ≤ (1 :: inner).length := by
  intro inner
  have made : Schema.ofFields Schema.counting.fields = .ok .counting := rfl
  have failed : ofBytes .counting (1 :: inner) = .error (.overflow "n" 0xffffffffffffffff 8) := rfl
  have counted : CompactSize.readCount (1 :: inner) = .ok 1 inner := rfl
  have inside : Schema.counting.Begins (1 :: inner) 1 inner :=
    .nested .outermost (List.nil_append _).symm rfl rfl counted Nat.one_pos rfl
  obtain ⟨outcome, -, -, -, -, -, within⟩ := ofBytes_refusals made (1 :: inner)
  obtain ⟨tx, read⟩ | ⟨e, same, fault⟩ := outcome
  · cases failed.symm.trans read
  · cases failed.symm.trans same
    obtain fault | ⟨_, -, -, trailing⟩ := fault
    · exact ⟨made, failed, fault, inside, within 1 inner inside⟩
    · cases trailing

end LedgerScript
