import LedgerScript.Ledger.Write
import LedgerScript.Proofs.Wire.ReadBack

namespace LedgerScript

namespace Written

theorem append_eq_ofBytes_iff {u v : Written} {b : Bytes} :
    u ++ v = ofBytes b ↔ ∃ x y, u = ofBytes x ∧ v = ofBytes y ∧ b = x ++ y := by
  obtain ⟨x, _ | e⟩ := u
  · obtain ⟨y, _ | e⟩ := v <;> simp [append_def, andThen, ofBytes, eq_comm]
  · simp [append_def, andThen, ofBytes]

/-- Whatever stops the writer has the property. -/
def FaultsAre (p : Error → Prop) (w : Written) : Prop := ∀ e, w.fault = some e → p e

section Faults

variable {p : Error → Prop}

theorem faultsAre_ofBytes (b : Bytes) : (ofBytes b).FaultsAre p := nofun

theorem faultsAre_stop {e : Error} (h : p e) : (stop e).FaultsAre p := by
  rintro _ ⟨⟩
  exact h

theorem FaultsAre.append {u v : Written} (hu : u.FaultsAre p) (hv : v.FaultsAre p) :
    (u ++ v).FaultsAre p := by
  obtain ⟨x, _ | e⟩ := u
  · exact hv
  · exact hu

theorem FaultsAre.concat {ws : List Written} (each : ∀ w ∈ ws, w.FaultsAre p) :
    (concat ws).FaultsAre p := by
  induction ws with
  | nil => exact faultsAre_ofBytes []
  | cons w ws ih =>
    rw [List.forall_mem_cons] at each
    exact each.1.append (ih each.2)

theorem FaultsAre.toExcept {w : Written} (h : w.FaultsAre p) {e : Error}
    (failed : w.toExcept = .error e) : p e := h e (toExcept_eq_error_iff.mp failed)

end Faults

theorem ofBytes_inj {a b : Bytes} (h : ofBytes a = ofBytes b) : a = b := congrArg Written.bytes h

theorem stop_ne_ofBytes (e : Error) (b : Bytes) : stop e ≠ ofBytes b := by
  simp [stop, ofBytes]

theorem concat_cons_eq_ofBytes {w : Written} {ws : List Written} {b : Bytes}
    (h : concat (w :: ws) = ofBytes b) :
    ∃ x y, w = ofBytes x ∧ concat ws = ofBytes y ∧ b = x ++ y := by
  rw [concat_cons] at h
  exact append_eq_ofBytes_iff.mp h

/-- Each part of what was written takes no more bytes than the whole. -/
theorem length_le_of_mem {w : Written} {ws : List Written} {b : Bytes} (member : w ∈ ws)
    (h : concat ws = ofBytes b) : ∃ c, w = ofBytes c ∧ c.length ≤ b.length := by
  induction ws generalizing b with
  | nil => cases member
  | cons v ws ih =>
    obtain ⟨x, y, first, others, rfl⟩ := concat_cons_eq_ofBytes h
    rw [List.length_append]
    cases List.mem_cons.mp member with
    | inl same => exact ⟨x, same.trans first, by omega⟩
    | inr later =>
      obtain ⟨c, hc, bound⟩ := ih later others
      exact ⟨c, hc, by omega⟩

end Written

theorem fault_writeRecords (list : List Record) :
    (writeRecords list).fault = list.findSome? fun tx => tx.write.fault := by
  rw [writeRecords_eq, Written.fault_concat, List.findSome?_map]
  rfl

/-- The first field that cannot be written stops the writer. -/
theorem Record.fault_write (record : Record) :
    record.write.fault = record.schema.fields.findSome? fun f => (record.writeField f).fault := by
  rw [write_eq, Written.fault_concat, List.findSome?_map]
  rfl

/-- The bytes that a field takes with a value that fits it. -/
inductive Field.Writes (field : Field) : Value → Bytes → Prop
  | integer {format : IntegerFormat} {n : Int64} {b : Bytes}
      (encoding : field.encoding = .integer format)
      (fits : format.write field.name n = .ofBytes b) : Writes field (.int n) b
  | fixed {b : Bytes} (encoding : field.encoding = .bytes)
      (length : field.byteLength = some b.length) : Writes field (.bytes b) b
  | counted {b : Bytes} (encoding : field.encoding = .bytes) (length : field.byteLength = none) :
      Writes field (.bytes b) (CompactSize.encodeBytes b)
  | inputs {list : List Input} (encoding : field.encoding = .inputs) :
      Writes field (.inputs list) (CompactSize.encode list.length ++ list.flatMap Input.encode)
  | outputs {list : List Output} (encoding : field.encoding = .outputs) :
      Writes field (.outputs list) (CompactSize.encode list.length ++ list.flatMap Output.encode)
  | transactions {list : List Record} {b : Bytes} (encoding : field.encoding = .transactions)
      (records : writeRecords list = .ofBytes b) :
      Writes field (.transactions list) (CompactSize.encode list.length ++ b)

theorem Field.writes_of_write {field : Field} {value : Value} {b : Bytes}
    (h : value.write field = .ofBytes b) : field.Writes value b := by
  cases value with
  | int n =>
    cases encoding : field.encoding <;> simp only [Value.write, encoding] at h
    case integer format => exact .integer encoding h
    all_goals exact absurd h (Written.stop_ne_ofBytes _ _)
  | bytes x =>
    cases encoding : field.encoding <;> simp only [Value.write, encoding] at h
    case bytes =>
      cases length : field.byteLength with
      | none =>
        simp only [length] at h
        cases Written.ofBytes_inj h
        exact .counted encoding length
      | some n =>
        simp only [length] at h
        split at h
        · next same =>
          cases Written.ofBytes_inj h
          exact .fixed encoding (by rw [length, same])
        · exact absurd h (Written.stop_ne_ofBytes _ _)
    all_goals exact absurd h (Written.stop_ne_ofBytes _ _)
  | inputs list =>
    cases encoding : field.encoding <;> simp only [Value.write, encoding] at h
    case inputs =>
      cases Written.ofBytes_inj h
      exact .inputs encoding
    all_goals exact absurd h (Written.stop_ne_ofBytes _ _)
  | outputs list =>
    cases encoding : field.encoding <;> simp only [Value.write, encoding] at h
    case outputs =>
      cases Written.ofBytes_inj h
      exact .outputs encoding
    all_goals exact absurd h (Written.stop_ne_ofBytes _ _)
  | transactions list =>
    cases encoding : field.encoding <;> simp only [Value.write, encoding] at h
    case transactions =>
      obtain ⟨x, c, count, records, rfl⟩ := Written.append_eq_ofBytes_iff.mp h
      cases Written.ofBytes_inj count
      exact .transactions encoding records
    all_goals exact absurd h (Written.stop_ne_ofBytes _ _)

theorem Field.Writes.minLength_le {field : Field} {value : Value} {b : Bytes}
    (h : field.Writes value b) : field.minLength ≤ b.length := by
  have counted (n : Nat) (c : Bytes) : 1 ≤ (CompactSize.encode n ++ c).length := by
    have := CompactSize.length_encode_pos n
    rw [List.length_append]
    omega
  cases h with
  | integer encoding fits =>
    obtain ⟨-, -, rfl⟩ := IntegerFormat.write_eq_ofBytes_iff.mp fits
    simp only [Field.minLength, encoding, IntegerFormat.length_bytes, Nat.le_refl]
  | fixed encoding length => simp only [Field.minLength, encoding, length, Nat.le_refl]
  | counted encoding length =>
    simpa only [Field.minLength, encoding, length, CompactSize.encodeBytes] using counted _ _
  | inputs encoding => simpa only [Field.minLength, encoding] using counted _ _
  | outputs encoding => simpa only [Field.minLength, encoding] using counted _ _
  | transactions encoding => simpa only [Field.minLength, encoding] using counted _ _

theorem Record.writes_of_writeField {record : Record} {field : Field} {b : Bytes}
    (h : record.writeField field = .ofBytes b) :
    ∃ value, record.values.lookup field.name = some value ∧ field.Writes value b := by
  unfold writeField at h
  cases found : record.values.lookup field.name with
  | none =>
    rw [found] at h
    exact absurd h (Written.stop_ne_ofBytes _ _)
  | some value =>
    rw [found] at h
    exact ⟨value, rfl, Field.writes_of_write h⟩

/-- Every field of a record that is written takes the bytes it announces. -/
theorem Record.field_minLength_le {record : Record} {b : Bytes}
    (written : record.write = .ofBytes b) {field : Field} (member : field ∈ record.schema.fields) :
    field.minLength ≤ b.length := by
  rw [Record.write_eq] at written
  obtain ⟨c, part, bound⟩ := Written.length_le_of_mem (List.mem_map_of_mem member) written
  obtain ⟨value, -, writes⟩ := record.writes_of_writeField part
  exact Nat.le_trans writes.minLength_le bound

/-- A record that is written takes the bytes that its schema announces. -/
theorem Record.minLength_le {record : Record} {b : Bytes} (written : record.write = .ofBytes b) :
    record.schema.minLength ≤ b.length := by
  rw [Record.write_eq] at written
  unfold Schema.minLength
  generalize record.schema.fields = fields at written ⊢
  induction fields generalizing b with
  | nil => exact Nat.zero_le _
  | cons field fields ih =>
    obtain ⟨x, y, first, others, rfl⟩ := Written.concat_cons_eq_ofBytes written
    obtain ⟨value, -, writes⟩ := record.writes_of_writeField first
    have front : field.minLength ≤ x.length := writes.minLength_le
    have back := ih others
    rw [List.foldr_cons, List.length_append]
    omega

end LedgerScript
