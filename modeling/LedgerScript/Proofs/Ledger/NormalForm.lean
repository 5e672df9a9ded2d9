import LedgerScript.Proofs.Ledger.Delimited
import LedgerScript.Proofs.Wire.NormalForm

namespace LedgerScript

open Decoder (Renews)

/-- The bytes of values that stand in the order of the fields, each under the name of its field. -/
inductive FieldsWritten : List Field → List (String × Value) → Bytes → Prop
  | nil : FieldsWritten [] [] []
  | cons {field : Field} {fields : List Field} {value : Value} {values : List (String × Value)}
      {u v : Bytes} (first : value.write field = .ofBytes u)
      (others : FieldsWritten fields values v) :
      FieldsWritten (field :: fields) ((field.name, value) :: values) (u ++ v)

/-- Where no name stands twice, a record finds each value under its name. -/
theorem FieldsWritten.concat {fields : List Field} {values : List (String × Value)} {b : Bytes}
    (h : FieldsWritten fields values b) (unique : (fields.map Field.name).Nodup) {record : Record}
    (found : ∀ name ∈ fields.map Field.name, record.values.lookup name = values.lookup name) :
    .concat (fields.map record.writeField) = Written.ofBytes b := by
  induction h with
  | nil => rfl
  | @cons field fields value values u v first others ih =>
    have own : record.values.lookup field.name = some value := by
      rw [found field.name List.mem_cons_self, List.lookup_cons_self]
    obtain ⟨apart, unique⟩ := List.nodup_cons.mp unique
    have rest := ih unique fun name member => by
      have ne : name ≠ field.name := fun same => apart (same ▸ member)
      rw [found name (List.mem_cons_of_mem _ member), Assoc.lookup_cons_of_ne ne]
    have head : record.writeField field = .ofBytes u := by
      rw [Record.writeField, own]
      exact first
    rw [List.map_cons, Written.concat_cons, head, rest]
    rfl

theorem FieldsWritten.write {schema : Schema} {values : List (String × Value)} {b : Bytes}
    (h : FieldsWritten schema.fields values b) (unique : schema.names.Nodup) :
    (Record.mk schema values).write = .ofBytes b := by
  rw [Record.write_eq]
  exact h.concat unique fun _ _ => rfl

theorem Field.readWith_renews {transaction : Decoder Record} {field : Field}
    (nested : field.encoding = .transactions → transaction.Takes 1 ∧
      transaction.Renews fun tx u => tx.write = .ofBytes u) :
    (field.readWith transaction).Renews fun value u => value.write field = .ofBytes u := by
  unfold readWith
  cases encoding : field.encoding with
  | integer format =>
    apply Renews.map
    apply (IntegerFormat.read_renews field.name).mono
    intro n u written
    simpa only [Value.write, encoding] using written
  | bytes =>
    cases length : field.byteLength with
    | none =>
      apply Renews.map
      apply CompactSize.readBytes_renews.mono
      rintro x _ rfl
      simp only [Value.write, encoding, length]
    | some n =>
      apply Renews.map
      apply (Renews.take n).mono
      rintro x _ ⟨rfl, rfl⟩
      simp only [Value.write, encoding, length, if_pos]
  | inputs =>
    apply CompactSize.renews_list Input.read_takes Input.read_renews
      (L := fun xs v => v = xs.flatMap Input.encode) rfl
    · rintro x xs _ _ rfl rfl
      rfl
    · rintro xs _ rfl
      simp only [Value.write, encoding]
  | outputs =>
    apply CompactSize.renews_list Output.read_takes Output.read_renews
      (L := fun xs v => v = xs.flatMap Output.encode) rfl
    · rintro x xs _ _ rfl rfl
      rfl
    · rintro xs _ rfl
      simp only [Value.write, encoding]
  | transactions =>
    obtain ⟨some, each⟩ := nested encoding
    apply CompactSize.renews_list some each
      (L := fun xs v => writeRecords xs = .ofBytes v) (by simp only [writeRecords])
    · intro x xs u v first others
      rw [writeRecords, first, others]
      rfl
    · intro xs v all
      simp only [Value.write, encoding, all]
      rfl

theorem Schema.readWith_renews {transaction : Decoder Record} {schema : Schema}
    (unique : schema.names.Nodup)
    (nested : ∀ field ∈ schema.fields, field.encoding = .transactions →
      transaction.Takes 1 ∧ transaction.Renews fun tx u => tx.write = .ofBytes u) :
    (schema.readWith transaction).Renews fun tx u => tx.write = .ofBytes u := by
  suffices values : ∀ fields : List Field, (∀ field ∈ fields, field ∈ schema.fields) →
      (Decoder.sequence (fields.map (Field.readNamed transaction))).Renews
        (FieldsWritten fields) by
    apply Renews.map
    apply (values schema.fields fun _ member => member).mono
    intro list u written
    exact written.write unique
  intro fields inSchema
  induction fields with
  | nil => exact .pure .nil
  | cons field fields ih =>
    have own := Field.readWith_renews (nested field (inSchema field List.mem_cons_self))
    have others := ih fun f member => inSchema f (List.mem_cons_of_mem field member)
    have named : (field.readNamed transaction).Renews fun binding u =>
        ∃ value, binding = (field.name, value) ∧ value.write field = .ofBytes u :=
      Renews.map (own.mono fun value u written => ⟨value, rfl, written⟩)
    apply named.bind
    rintro _ u ⟨value, rfl, first⟩
    apply Renews.map
    exact others.mono fun values v rest => .cons first rest

theorem Schema.readNested_renews {schema : Schema} (unique : schema.names.Nodup) (depth : Nat) :
    (schema.readNested depth).Renews fun tx u => tx.write = .ofBytes u := by
  induction depth with
  | zero => exact .throw _
  | succ depth ih =>
    apply Schema.readWith_renews unique
    intro field member encoding
    have one := Schema.minLength_le member
    rw [Field.minLength_transactions encoding] at one
    exact ⟨(schema.readNested_takes depth).mono one, ih⟩

/-- **Writing gives a normal form.** A transaction that was read from bytes can be written, what is
written reads back to the same transaction, it is no longer than the bytes, and only bytes that
are themselves written are as short. -/
theorem Record.ofBytes_normal {fields : List Field} {schema : Schema}
    (accepted : Schema.ofFields fields = .ok schema) {b : Bytes} {tx : Record}
    (read : Record.ofBytes schema b = .ok tx) :
    ∃ form, tx.toBytes = .ok form ∧ Record.ofBytes schema form = .ok tx ∧
      form.length ≤ b.length ∧ (form.length = b.length → form = b) := by
  obtain ⟨rfl, unique⟩ : schema = ⟨fields⟩ ∧ (Schema.mk fields).names.Nodup :=
    Schema.ofFields_eq_ok_iff.mp accepted
  have deep := Schema.readNested_renews unique (b.length + 1)
  obtain ⟨taken, form, split, written, reads, short⟩ := deep (Decoder.whole_eq_ok_iff.mp read)
  rw [List.append_nil] at split
  subst split
  refine ⟨form, Written.toExcept_eq_ok_iff.mpr written, ?_, short⟩
  have again := reads []
  rw [List.append_nil] at again
  exact Decoder.whole_eq_ok_iff.mpr ((Schema.read_eq _ _ short.1).trans again)

theorem Record.ofBytes_normal_overlong :
    ∃ tx, Schema.ofFields Schema.nesting.fields = .ok .nesting ∧
      Record.ofBytes .nesting Record.overlongBytes = .ok tx ∧
      ∃ form, tx.toBytes = .ok form ∧ Record.ofBytes .nesting form = .ok tx ∧
        form.length ≤ Record.overlongBytes.length ∧
        (form.length = Record.overlongBytes.length → form = Record.overlongBytes) := by
  have accepted : Schema.ofFields Schema.nesting.fields = .ok .nesting := rfl
  exact ⟨_, accepted, rfl, Record.ofBytes_normal accepted rfl⟩

end LedgerScript
