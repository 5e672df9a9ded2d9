import LedgerScript.Proofs.Ledger.Equivalence
import Mathlib.Algebra.GroupWithZero.Nat

namespace LedgerScript

/-- How many bytes a count takes. -/
def CompactSize.size (n : Nat) : Nat :=
  if n < 0xfd then 1 else if n ≤ 0xffff then 3 else if n ≤ 0xffffffff then 5 else 9

/-- A hash, an index, a script with its length in front, and a sequence number. -/
def Input.size (input : Input) : Nat :=
  32 + 4 + (CompactSize.size input.script.length + input.script.length) + 4

/-- An amount, and a script with its length in front. -/
def Output.size (output : Output) : Nat :=
  8 + (CompactSize.size output.script.length + output.script.length)

mutual

/-- How many bytes a value takes in a field. -/
def Value.size : Value → Field → Nat
  | .int _, field =>
    match field.encoding with
    | .integer format => format.width
    | _ => 0
  | .bytes b, field =>
    match field.byteLength with
    | some n => n
    | none => CompactSize.size b.length + b.length
  | .inputs list, _ => CompactSize.size list.length + (list.map Input.size).sum
  | .outputs list, _ => CompactSize.size list.length + (list.map Output.size).sum
  | .transactions list, _ => CompactSize.size list.length + sizeOfRecords list

/-- How many bytes the fields of a record take together. -/
def Record.size : Record → Nat
  | ⟨schema, values⟩ =>
    let measures := measuresOf values
    (schema.fields.map fun field =>
      match measures.lookup field.name with
      | none => 0
      | some measure => measure field).sum

def sizeOfRecords : List Record → Nat
  | [] => 0
  | r :: rest => r.size + sizeOfRecords rest

/-- How each value is measured. -/
def measuresOf : List (String × Value) → List (String × (Field → Nat))
  | [] => []
  | (name, value) :: rest => (name, value.size) :: measuresOf rest

end

theorem lookup_measuresOf (values : List (String × Value)) (name : String) :
    (measuresOf values).lookup name = (values.lookup name).map Value.size := by
  induction values with
  | nil => simp [measuresOf]
  | cons p rest ih =>
    obtain ⟨n, v⟩ := p
    simp only [measuresOf, List.lookup_cons]
    split <;> simp_all

/-- How many bytes a record takes for one of its fields. -/
def Record.fieldSize (record : Record) (field : Field) : Nat :=
  match record.values.lookup field.name with
  | none => 0
  | some value => value.size field

/-- **The size of a record is the sum of the sizes of its fields.** -/
theorem Record.size_eq (record : Record) :
    record.size = (record.schema.fields.map record.fieldSize).sum := by
  obtain ⟨schema, values⟩ := record
  simp only [Record.size, lookup_measuresOf]
  congr 2
  funext field
  simp only [Record.fieldSize]
  cases values.lookup field.name <;> rfl

theorem CompactSize.length_encode_eq_size (n : Nat) : (encode n).length = size n :=
  length_encode n

theorem CompactSize.length_encodeBytes (b : Bytes) :
    (encodeBytes b).length = size b.length + b.length := by
  rw [encodeBytes, List.length_append, length_encode_eq_size]

theorem length_word32 (n : UInt32) : (word32 n).length = 4 := Bytes.length_ofNatLE 4 n.toNat

theorem length_word64 (n : Int64) : (word64 n).length = 8 :=
  Bytes.length_ofNatLE 8 n.toUInt64.toNat

theorem Input.length_encode (input : Input) : input.encode.length = input.size := by
  simp only [encode, size, List.length_append, length_word32, CompactSize.length_encodeBytes,
    input.outPoint.hash.length_eq]

theorem Output.length_encode (output : Output) : output.encode.length = output.size := by
  simp only [encode, size, List.length_append, length_word64, CompactSize.length_encodeBytes]

theorem length_of_writeRecords {list : List Record} {b : Bytes}
    (written : writeRecords list = .ofBytes b)
    (each : ∀ tx ∈ list, ∀ c, tx.write = .ofBytes c → c.length = tx.size) :
    b.length = sizeOfRecords list := by
  induction list generalizing b with
  | nil =>
    cases Written.ofBytes_inj (by simpa only [writeRecords] using written)
    rfl
  | cons tx list ih =>
    rw [writeRecords] at written
    rw [List.forall_mem_cons] at each
    obtain ⟨x, y, first, others, rfl⟩ := Written.append_eq_ofBytes_iff.mp written
    rw [List.length_append, sizeOfRecords, each.1 x first, ih others each.2]

theorem Field.Writes.length_eq {field : Field} {value : Value} {b : Bytes}
    (writes : field.Writes value b)
    (nested : value.All fun tx => ∀ c, tx.write = .ofBytes c → c.length = tx.size) :
    b.length = value.size field := by
  cases writes with
  | integer encoding fits =>
    obtain ⟨-, -, rfl⟩ := IntegerFormat.write_eq_ofBytes_iff.mp fits
    rw [IntegerFormat.length_bytes, Value.size, encoding]
  | fixed encoding length => rw [Value.size, length]
  | counted encoding length => rw [CompactSize.length_encodeBytes, Value.size, length]
  | inputs encoding =>
    rw [List.length_append, CompactSize.length_encode_eq_size, List.length_flatMap, Value.size]
    simp only [Input.length_encode]
  | outputs encoding =>
    rw [List.length_append, CompactSize.length_encode_eq_size, List.length_flatMap, Value.size]
    simp only [Output.length_encode]
  | transactions encoding records =>
    rw [List.length_append, CompactSize.length_encode_eq_size, Value.size,
      length_of_writeRecords records (nested _ rfl)]

/-- **A record that is written takes its size.** -/
theorem Record.length_of_write {record : Record} {b : Bytes}
    (written : record.write = .ofBytes b) : b.length = record.size := by
  have each (field : Field) (c : Bytes) (part : record.writeField field = .ofBytes c) :
      c.length = record.fieldSize field := by
    obtain ⟨value, held, writes⟩ := record.writes_of_writeField part
    rw [fieldSize, held]
    have smaller : sizeOf value < sizeOf record :=
      Nat.lt_trans (sizeOf_lookup held) record.sizeOf_values
    refine writes.length_eq fun list same tx member d inner => ?_
    have := Value.all_below smaller list same tx member
    exact tx.length_of_write inner
  rw [write_eq] at written
  rw [size_eq]
  generalize record.schema.fields = fields at written ⊢
  induction fields generalizing b with
  | nil =>
    cases Written.ofBytes_inj written
    rfl
  | cons field fields ih =>
    obtain ⟨x, y, first, others, rfl⟩ := Written.concat_cons_eq_ofBytes written
    rw [List.length_append, List.map_cons, List.sum_cons, each field x first, ih others]
termination_by sizeOf record

/-- A transaction without inputs and outputs has a version, two counts and a lock time. -/
example : (Record.new Preset.bitcoinTransaction).size = 10 := by decide

end LedgerScript
