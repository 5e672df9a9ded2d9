import LedgerScript.Ledger.Transfer
import LedgerScript.Wire.Integer

namespace LedgerScript

namespace Decoder

variable {α β : Type} {d : Decoder α} {f : α → Decoder β} {a b : Bytes} {x : α} {y : β}

/-- The decoder takes exactly these bytes off any input and answers the value. -/
def Reads (d : Decoder α) (bytes : Bytes) (x : α) : Prop :=
  ∀ rest, d (bytes ++ rest) = .ok x rest

namespace Reads

theorem pure (x : α) : Reads (Pure.pure x) [] x := fun _ => rfl

theorem bind (first : d.Reads a x) (second : (f x).Reads b y) :
    Reads (d >>= f) (a ++ b) y := by
  intro rest
  have h := first (b ++ rest)
  simp only [Bind.bind, EStateM.bind, List.append_assoc, h, second rest]

/-- A last step that only computes takes nothing. -/
theorem map {g : α → β} (first : d.Reads a x) :
    Reads (d >>= fun v => Pure.pure (g v)) a (g x) := by
  simpa using first.bind (f := fun v => Pure.pure (g v)) (pure (g x))

theorem take (bytes : Bytes) : Reads (Decoder.take bytes.length) bytes bytes :=
  take_append bytes

theorem times (encode : α → Bytes) (xs : List α) (each : ∀ x ∈ xs, d.Reads (encode x) x) :
    Reads (Decoder.times xs.length d) (xs.flatMap encode) xs := by
  induction xs with
  | nil => exact pure []
  | cons x xs ih =>
    have first := each x List.mem_cons_self
    have others := ih fun z hz => each z (List.mem_cons_of_mem x hz)
    exact first.bind others.map

/-- A count in front is no more than the bytes that come with it. -/
theorem counted {f : Nat → Decoder β} {n : Nat} (small : n < UInt64.size) (enough : n ≤ b.length)
    (body : (f n).Reads b y) :
    Reads (CompactSize.readCount >>= f) (CompactSize.encode n ++ b) y := by
  intro rest
  have count : CompactSize.readCount (CompactSize.encode n ++ (b ++ rest)) = .ok n (b ++ rest) := by
    have within : n ≤ (b ++ rest).length := by
      rw [List.length_append]
      omega
    simp only [CompactSize.readCount, Bind.bind, EStateM.bind, CompactSize.read_encode n small]
    exact congrFun (if_pos within) (b ++ rest)
  simp only [Bind.bind, EStateM.bind, List.append_assoc, count, body rest]

theorem length_le_flatMap {encode : α → Bytes} {xs : List α} (some : ∀ x ∈ xs, encode x ≠ []) :
    xs.length ≤ (xs.flatMap encode).length := by
  induction xs with
  | nil => exact Nat.zero_le _
  | cons x xs ih =>
    have first := List.length_pos_iff.mpr (some x List.mem_cons_self)
    have others := ih fun z hz => some z (List.mem_cons_of_mem x hz)
    simp only [List.flatMap_cons, List.length_append, List.length_cons]
    omega

theorem length_encode_le_flatMap (encode : α → Bytes) {xs : List α} (h : x ∈ xs) :
    (encode x).length ≤ (xs.flatMap encode).length := by
  have part : encode x ∈ xs.map encode := List.mem_map_of_mem h
  exact (List.sublist_flatten_of_mem part).length_le

/-- A list that was written with its count in front reads back. -/
theorem ofList {encode : α → Bytes} {xs : List α} (some : ∀ x, encode x ≠ [])
    (small : (CompactSize.encode xs.length ++ xs.flatMap encode).length < UInt64.size)
    (each : ∀ x, (encode x).length < UInt64.size → d.Reads (encode x) x) (g : List α → β) :
    Reads (CompactSize.readCount >>= fun n => Decoder.times n d >>= fun l => Pure.pure (g l))
      (CompactSize.encode xs.length ++ xs.flatMap encode) (g xs) := by
  rw [List.length_append] at small
  have count : xs.length ≤ (xs.flatMap encode).length := length_le_flatMap fun x _ => some x
  apply counted (by omega) count
  apply map
  apply times
  intro x hx
  have := length_encode_le_flatMap encode hx
  exact each x (by omega)

/-- A decoder that reads a whole input leaves nothing over. -/
theorem whole (h : d.Reads a x) : d.whole a = .ok x := by
  have all := h []
  rw [List.append_nil] at all
  simp only [Decoder.whole, all]

end Reads
end Decoder

open Decoder (Reads take_append)

theorem CompactSize.length_encode_pos (n : Nat) : 0 < (encode n).length :=
  List.length_pos_iff.mpr (encode_ne_nil n)

theorem CompactSize.readBytes_reads {bytes : Bytes} (small : bytes.length < UInt64.size) :
    Reads readBytes (encodeBytes bytes) bytes :=
  Reads.counted small (Nat.le_refl _) (Reads.take bytes)

namespace IntegerFormat

variable {format : IntegerFormat}

theorem modulus_half (supported : format.Supported) :
    Bytes.modulus format.width = 2 * (Bytes.modulus format.width / 2) := by
  obtain ⟨w, hw⟩ : ∃ w, format.width = w + 1 := ⟨format.width - 1, by have := supported.1; omega⟩
  rw [hw, Bytes.modulus]
  omega

/-- A number of the format is spelt by its bytes. -/
theorem value_bytes (supported : format.Supported) {n : Int} (fits : format.Fits n) :
    format.value (format.bytes n) = n := by
  have half := modulus_half supported
  have positive := Bytes.modulus_pos format.width
  have nonneg : 0 ≤ n % (Bytes.modulus format.width : Int) := Int.emod_nonneg _ (by omega)
  have below : n % (Bytes.modulus format.width : Int) < Bytes.modulus format.width :=
    Int.emod_lt_of_pos _ (by omega)
  have raw : (Bytes.toNatLE (format.arrange (format.bytes n)) : Int)
      = n % (Bytes.modulus format.width : Int) := by
    rw [bytes, arrange_arrange, Bytes.toNatLE_ofNatLE, Nat.mod_eq_of_lt (by omega)]
    omega
  obtain ⟨low, high⟩ := fits
  unfold lowest at low
  unfold highest at high
  simp only [value, raw]
  split
  · next signed =>
    rw [if_pos signed] at low high
    rw [Int.emod_bmod, Int.bmod_eq_of_le (by omega) (by omega)]
  · next unsigned =>
    rw [if_neg unsigned] at low high
    exact Int.emod_eq_of_lt low (by omega)

theorem write_eq_ofBytes_iff {field : String} {n : Int64} {b : Bytes} :
    format.write field n = .ofBytes b ↔
      format.Supported ∧ format.Fits n.toInt ∧ b = format.bytes n.toInt := by
  unfold write
  split
  · next supported =>
    split
    · next fits => simp [Written.ofBytes, supported, fits, eq_comm]
    · next unfit => simp [Written.ofBytes, Written.stop, unfit]
  · next unsupported => simp [Written.ofBytes, Written.stop, unsupported]

/-- A number of supported width is read off the bytes that spell it, unless it is too large. -/
theorem read_append (supported : format.Supported) (field : String) {b : Bytes}
    (length : b.length = format.width) (rest : Bytes) :
    format.read field (b ++ rest) =
      if format.value b ≤ Int64.maxValue.toInt then .ok (Int64.ofInt (format.value b)) rest
      else .error (.overflow field (format.value b) format.width) rest := by
  have taken := take_append b rest
  rw [length] at taken
  simp only [read, if_pos supported, Bind.bind, EStateM.bind, taken]
  split <;> rfl

theorem reads_of_write {field : String} {n : Int64} {b : Bytes}
    (written : format.write field n = .ofBytes b) : Reads (format.read field) b n := by
  obtain ⟨supported, fits, rfl⟩ := write_eq_ofBytes_iff.mp written
  intro rest
  have inRange : n.toInt ≤ Int64.maxValue.toInt := n.toInt_le
  rw [read_append supported field (length_bytes format n.toInt), value_bytes supported fits,
    if_pos inRange, Int64.ofInt_toInt]

end IntegerFormat

theorem Input.length_le_encode (input : Input) : input.script.length ≤ input.encode.length := by
  simp only [encode, CompactSize.encodeBytes, List.length_append]
  omega

theorem Input.encode_ne_nil (input : Input) : input.encode ≠ [] := by
  have length := input.outPoint.hash.length_eq
  intro empty
  have := congrArg List.length empty
  simp only [encode, List.length_append, List.length_nil] at this
  omega

theorem Input.reads {input : Input} (small : input.encode.length < UInt64.size) :
    Reads read input.encode input := by
  have script := CompactSize.readBytes_reads (Nat.lt_of_le_of_lt input.length_le_encode small)
  have hash : Reads Hash.read input.outPoint.hash.bytes input.outPoint.hash :=
    Hash.read_append input.outPoint.hash
  have index : Reads readWord32 (word32 input.outPoint.index) input.outPoint.index :=
    readWord32_append input.outPoint.index
  have sequence : Reads readWord32 (word32 input.sequence) input.sequence :=
    readWord32_append input.sequence
  have grouped : input.encode = input.outPoint.hash.bytes ++ (word32 input.outPoint.index
      ++ (CompactSize.encodeBytes input.script ++ word32 input.sequence)) := by
    simp only [encode, List.append_assoc]
  rw [grouped]
  exact hash.bind (index.bind (script.bind sequence.map))

theorem Output.length_le_encode (output : Output) :
    output.script.length ≤ output.encode.length := by
  simp only [encode, CompactSize.encodeBytes, List.length_append]
  omega

theorem Output.encode_ne_nil (output : Output) : output.encode ≠ [] := by
  intro empty
  have := congrArg List.length empty
  simp only [encode, word64, List.length_append, Bytes.length_ofNatLE, List.length_nil] at this
  omega

theorem Output.reads {output : Output} (small : output.encode.length < UInt64.size) :
    Reads read output.encode output := by
  have script := CompactSize.readBytes_reads (Nat.lt_of_le_of_lt output.length_le_encode small)
  have amount : Reads readWord64 (word64 output.amount) output.amount :=
    readWord64_append output.amount
  exact amount.bind script.map

end LedgerScript
