import LedgerScript.Ledger.Transaction
import LedgerScript.Proofs.Ledger.RoundTrip
import LedgerScript.Proofs.Wire.Delimited

namespace LedgerScript

open Decoder (Takes Delimits)

/-- Reads a field as the binding of its name. -/
def Field.readNamed (transaction : Decoder Record) (field : Field) : Decoder (String × Value) := do
  let value ← field.readWith transaction
  pure (field.name, value)

theorem Field.minLength_transactions {field : Field} (h : field.encoding = .transactions) :
    field.minLength = 1 := by
  simp only [minLength, h]

theorem Schema.minLength_le {schema : Schema} {field : Field} (member : field ∈ schema.fields) :
    field.minLength ≤ schema.minLength := by
  obtain ⟨fields⟩ := schema
  induction fields with
  | nil => cases member
  | cons first fields ih =>
    simp only [minLength, List.foldr_cons] at ih ⊢
    cases List.mem_cons.mp member with
    | inl same =>
      subst same
      omega
    | inr later =>
      have := ih later
      omega

theorem Field.readWith_takes {transaction : Decoder Record} (forward : transaction.Takes 0)
    (field : Field) : (field.readWith transaction).Takes field.minLength := by
  have counted {f : Nat → Decoder Value} (body : ∀ n, (f n).Takes 0) :
      (CompactSize.readCount >>= f).Takes 1 := CompactSize.readCount_takes.bind body
  unfold readWith minLength
  cases field.encoding with
  | integer format => exact (format.read_takes field.name).map
  | bytes =>
    cases field.byteLength with
    | none => exact CompactSize.readBytes_takes.map
    | some n => exact (Takes.take n).map
  | inputs => exact counted fun n => (Input.read_delimits.times n).takes.map
  | outputs => exact counted fun n => (Output.read_delimits.times n).takes.map
  | transactions => exact counted fun n => (forward.times n).map

theorem Schema.readWith_takes {transaction : Decoder Record} (forward : transaction.Takes 0)
    (schema : Schema) : (schema.readWith transaction).Takes schema.minLength := by
  suffices values : (Decoder.sequence (schema.fields.map (Field.readNamed transaction))).Takes
      schema.minLength from values.map
  obtain ⟨fields⟩ := schema
  induction fields with
  | nil => exact .pure []
  | cons field fields ih => exact (field.readWith_takes forward).map.bind fun _ => ih.map

theorem Schema.readNested_takes (schema : Schema) (depth : Nat) :
    (schema.readNested depth).Takes schema.minLength := by
  induction depth with
  | zero => exact .throw _ _
  | succ depth ih => exact schema.readWith_takes (ih.mono (Nat.zero_le _))

theorem Schema.read_takes (schema nested : Schema) :
    (schema.read nested).Takes schema.minLength := by
  intro input record rest done
  have forward := (nested.readNested_takes input.length).mono (Nat.zero_le _)
  exact schema.readWith_takes forward done

/-- A field finds its own end if the transactions in it do and are not empty. -/
theorem Field.readWith_delimits {transaction : Decoder Record} {field : Field}
    (nested : field.encoding = .transactions → transaction.Delimits ∧ transaction.Takes 1) :
    (field.readWith transaction).Delimits := by
  have counted {α : Type} {d : Decoder α} {g : List α → Value} (own : d.Delimits)
      (some : d.Takes 1) :
      (CompactSize.readCount >>= fun n => Decoder.times n d >>= fun l => pure (g l)).Delimits :=
    CompactSize.delimits_counted (fun n => (own.times n).map) fun n =>
      (some.times n).map.mono (Nat.le_of_eq (Nat.mul_one n).symm)
  unfold readWith
  cases encoding : field.encoding with
  | integer format => exact (format.read_delimits field.name).map
  | bytes =>
    cases field.byteLength with
    | none => exact CompactSize.readBytes_delimits.map
    | some n => exact (Delimits.take n).map
  | inputs => exact counted Input.read_delimits Input.read_takes
  | outputs => exact counted Output.read_delimits Output.read_takes
  | transactions => exact counted (nested encoding).1 (nested encoding).2

theorem Schema.readWith_delimits {transaction : Decoder Record} {schema : Schema}
    (nested : ∀ field ∈ schema.fields, field.encoding = .transactions →
      transaction.Delimits ∧ transaction.Takes 1) : (schema.readWith transaction).Delimits := by
  suffices values :
      (Decoder.sequence (schema.fields.map (Field.readNamed transaction))).Delimits from values.map
  apply Delimits.sequence
  intro d member
  obtain ⟨field, inSchema, rfl⟩ := List.mem_map.mp member
  exact (Field.readWith_delimits (nested field inSchema)).map

/-- A schema with a field of transactions announces a byte for it, so none of them is empty. -/
theorem Schema.readNested_delimits (schema : Schema) (depth : Nat) :
    (schema.readNested depth).Delimits := by
  induction depth with
  | zero => exact .throw _
  | succ depth ih =>
    apply Schema.readWith_delimits
    intro field member encoding
    have one := Schema.minLength_le member
    rw [Field.minLength_transactions encoding] at one
    exact ⟨ih, (schema.readNested_takes depth).mono one⟩

namespace Decoder

variable {α β : Type} {d e : Decoder α} {f g : α → Decoder β}

/-- The decoders give the same answer on every input shorter than `n`. -/
def AlikeBelow (n : Nat) (d e : Decoder α) : Prop := ∀ input, input.length < n → d input = e input

namespace AlikeBelow

theorem refl (n : Nat) (d : Decoder α) : AlikeBelow n d d := fun _ _ => rfl

/-- What the first decoder takes is not there for the second. -/
theorem bind {m n : Nat} (first : AlikeBelow (n + m) d e) (takes : d.Takes m)
    (second : ∀ x, AlikeBelow n (f x) (g x)) : AlikeBelow (n + m) (d >>= f) (e >>= g) := by
  intro input short
  simp only [Bind.bind, EStateM.bind, ← first input short]
  cases ok : d input with
  | ok x mid =>
    have := takes ok
    exact second x mid (by omega)
  | error err mid => rfl

theorem map {n : Nat} {h : α → β} (first : AlikeBelow n d e) :
    AlikeBelow n (d >>= fun x => pure (h x)) (e >>= fun x => pure (h x)) := by
  intro input short
  simp only [Bind.bind, EStateM.bind, first input short]

theorem times {n : Nat} (each : AlikeBelow n d e) (forward : d.Takes 0) (count : Nat) :
    AlikeBelow n (Decoder.times count d) (Decoder.times count e) := by
  induction count with
  | zero => exact refl n _
  | succ count ih => exact bind (m := 0) each forward fun x => ih.map

theorem sequence {ι : Type} {n : Nat} {d e : ι → Decoder α} {list : List ι}
    (each : ∀ i, AlikeBelow n (d i) (e i)) (forward : ∀ i, (d i).Takes 0) :
    AlikeBelow n (Decoder.sequence (list.map d)) (Decoder.sequence (list.map e)) := by
  induction list with
  | nil => exact refl n _
  | cons i list ih => exact bind (m := 0) (each i) (forward i) fun x => ih.map

end AlikeBelow
end Decoder

open Decoder (AlikeBelow)

/-- The count of transactions has taken a byte before they begin. -/
theorem Field.readWith_alike {t u : Decoder Record} {n : Nat} (h : AlikeBelow n t u)
    (forward : t.Takes 0) (field : Field) :
    AlikeBelow (n + 1) (field.readWith t) (field.readWith u) := by
  unfold readWith
  cases field.encoding with
  | transactions =>
    exact (AlikeBelow.refl (n + 1) _).bind CompactSize.readCount_takes fun count =>
      (h.times forward count).map
  | integer | bytes | inputs | outputs => exact .refl _ _

theorem Schema.readWith_alike {t u : Decoder Record} {n : Nat} (h : AlikeBelow n t u)
    (forward : t.Takes 0) (schema : Schema) :
    AlikeBelow (n + 1) (schema.readWith t) (schema.readWith u) := by
  have fields : AlikeBelow (n + 1)
      (Decoder.sequence (schema.fields.map (Field.readNamed t)))
      (Decoder.sequence (schema.fields.map (Field.readNamed u))) :=
    AlikeBelow.sequence (fun field => (field.readWith_alike h forward).map)
      fun field => (field.readWith_takes forward).map.mono (Nat.zero_le _)
  exact fields.map

theorem Schema.readNested_alike (schema : Schema) {n k l : Nat} (hk : n ≤ k) (hl : n ≤ l) :
    AlikeBelow n (schema.readNested k) (schema.readNested l) := by
  induction n generalizing k l with
  | zero =>
    intro input short
    cases short
  | succ n ih =>
    obtain ⟨k, rfl⟩ : ∃ k', k = k' + 1 := ⟨k - 1, by omega⟩
    obtain ⟨l, rfl⟩ : ∃ l', l = l' + 1 := ⟨l - 1, by omega⟩
    exact schema.readWith_alike (ih (by omega) (by omega))
      ((schema.readNested_takes k).mono (Nat.zero_le _))

/-- **The bound on nesting is not felt.** Transactions may nest as deep as there are bytes or
deeper, the answer stays the same. -/
theorem Schema.read_eq (schema nested : Schema) {input : Bytes} {depth : Nat}
    (enough : input.length ≤ depth) :
    schema.read nested input = schema.readWith (nested.readNested depth) input := by
  have alike := nested.readNested_alike (Nat.le_refl input.length) enough
  have forward := (nested.readNested_takes input.length).mono (Nat.zero_le _)
  exact schema.readWith_alike alike forward input (Nat.lt_succ_self _)

/-- A record finds its own end, provided that a list of transactions in it is not one of
nothings. -/
theorem Schema.read_delimits {schema nested : Schema}
    (some : ∀ field ∈ schema.fields, field.encoding = .transactions → 1 ≤ nested.minLength) :
    (schema.read nested).Delimits := by
  have atDepth (depth : Nat) : (schema.readWith (nested.readNested depth)).Delimits :=
    Schema.readWith_delimits fun field member encoding =>
      ⟨nested.readNested_delimits depth,
        (nested.readNested_takes depth).mono (some field member encoding)⟩
  intro input record rest ok
  obtain ⟨taken, rfl, -, stops⟩ := atDepth (input.length) ok
  refine ⟨taken, rfl, ?_, ?_⟩
  · intro more
    -- one depth that suffices for the bytes that were read and for those that may follow
    obtain ⟨depth, enough⟩ : ∃ depth, (taken ++ rest).length + more.length ≤ depth :=
      ⟨_, Nat.le_refl _⟩
    have deep : schema.read nested (taken ++ rest) =
        schema.readWith (nested.readNested depth) (taken ++ rest) :=
      schema.read_eq nested (by omega)
    obtain ⟨taken', split, reads, -⟩ := atDepth depth (deep.symm.trans ok)
    cases List.append_cancel_right split
    have further : (taken ++ more).length ≤ depth := by
      simp only [List.length_append] at enough ⊢
      omega
    exact (schema.read_eq nested further).trans (reads more)
  · intro front back split cut
    obtain ⟨needed, remaining, left, lt, error⟩ := stops front back split cut
    have within : front.length ≤ (taken ++ rest).length := by
      rw [split]
      simp only [List.length_append]
      omega
    exact ⟨needed, remaining, left, lt, (schema.read_eq nested within).trans error⟩

/-- A schema whose transactions follow the schema itself. -/
theorem Schema.read_self_delimits (schema : Schema) : (schema.read schema).Delimits := by
  apply Schema.read_delimits
  intro field member encoding
  rw [← Field.minLength_transactions encoding]
  exact Schema.minLength_le member

/-- **The format is self-delimiting.** Of a byte string that is read as a transaction, every proper
beginning is a truncated input that lacks some of the bytes it needs, and whatever is put after it
is trailing data. -/
theorem Record.ofBytes_delimited {schema : Schema} {b : Bytes} {tx : Record}
    (read : Record.ofBytes schema b = .ok tx) :
    (∀ front, front <+: b → front ≠ b → ∃ needed remaining, remaining < needed ∧
      Record.ofBytes schema front = .error (.truncated needed remaining)) ∧
    ∀ more, more ≠ [] → Record.ofBytes schema (b ++ more) = .error (.trailing more.length) := by
  obtain ⟨taken, split, reads, stops⟩ := schema.read_self_delimits (Decoder.whole_eq_ok_iff.mp read)
  rw [List.append_nil] at split
  subst split
  refine ⟨?_, fun more some => reads.whole_append some⟩
  rintro front ⟨back, rfl⟩ proper
  have cut : back ≠ [] := by
    rintro rfl
    exact proper (List.append_nil front).symm
  exact (stops front back rfl cut).whole

/-- A transaction with a transaction in it, the counts of both being longer than needed. -/
def Record.overlongBytes : Bytes := [0, 5, 0xfd, 1, 0, 7, 0xfe, 1, 0, 0, 0, 0, 6, 0, 0xfd, 0, 0]

theorem Record.ofBytes_delimited_overlong :
    ∃ tx, Record.ofBytes .nesting Record.overlongBytes = .ok tx ∧
      (∀ front, front <+: Record.overlongBytes → front ≠ Record.overlongBytes →
        ∃ needed remaining, remaining < needed ∧
          Record.ofBytes .nesting front = .error (.truncated needed remaining)) ∧
      ∀ more, more ≠ [] →
        Record.ofBytes .nesting (Record.overlongBytes ++ more) = .error (.trailing more.length) :=
  ⟨_, rfl, Record.ofBytes_delimited rfl⟩

end LedgerScript
