import LedgerScript.Proofs.Fallible
import LedgerScript.Script.Push

namespace LedgerScript.Script

/-- The bytes are one operation: a code alone, or a code with data and before the data what spells
its length. -/
inductive Spells : Bytes → UInt8 → Option Bytes → Prop
  | plain {opcode : UInt8} (width : lengthWidth? opcode = none) : Spells [opcode] opcode none
  | push {opcode : UInt8} {head data : Bytes} (width : lengthWidth? opcode = some head.length)
      (length : dataLength opcode head.length head = data.length) :
      Spells (opcode :: (head ++ data)) opcode (some data)

theorem Spells.exists_eq_cons {part : Bytes} {opcode : UInt8} {data : Option Bytes}
    (h : Spells part opcode data) : ∃ tail, part = opcode :: tail := by
  cases h <;> exact ⟨_, rfl⟩

/-- Only the bytes that spell the length matter for it. -/
theorem dataLength_append (opcode : UInt8) (head rest : Bytes) :
    dataLength opcode head.length (head ++ rest) = dataLength opcode head.length head := by
  simp [dataLength]

theorem payload_of_spells {opcode : UInt8} {tail : Bytes} {data : Option Bytes}
    (h : Spells (opcode :: tail) opcode data) (rest : Bytes) :
    payload opcode (tail ++ rest) = .ok (tail.length, data) := by
  unfold payload
  cases h with
  | plain width => simp [width]
  | @push _ head data width length =>
    have size : dataLength opcode head.length (head ++ (data ++ rest)) = data.length :=
      (dataLength_append opcode head (data ++ rest)).trans length
    have enough : ¬ (head ++ (data ++ rest)).length < head.length := by simp
    have room : ¬ (data ++ rest).length < data.length := by simp
    simp only [width, List.append_assoc]
    rw [if_neg enough, size, List.drop_left, if_neg room, List.take_left, List.length_append]

/-- The bytes of an operation say what it is. -/
theorem Spells.unique {part : Bytes} {opcode opcode' : UInt8} {data data' : Option Bytes}
    (h : Spells part opcode data) (h' : Spells part opcode' data') :
    opcode = opcode' ∧ data = data' := by
  obtain ⟨tail, rfl⟩ := h.exists_eq_cons
  obtain rfl : opcode = opcode' := by cases h' <;> rfl
  cases (payload_of_spells h []).symm.trans (payload_of_spells h' [])
  exact ⟨rfl, rfl⟩

/-- A code alone is an operation without data, or a push of nothing by `OP_0`. -/
theorem spells_alone_iff {value opcode : UInt8} {data : Option Bytes} :
    Spells [value] opcode data ↔ opcode = value ∧
      (data = none ∧ lengthWidth? value = none ∨ data = some [] ∧ value = 0) := by
  constructor
  · intro spelt
    generalize part : [value] = bytes at spelt
    cases spelt with
    | plain width =>
      cases part
      exact ⟨rfl, .inl ⟨rfl, width⟩⟩
    | @push _ head data width length =>
      obtain ⟨rfl, rfl, rfl⟩ : value = opcode ∧ head = [] ∧ data = [] := by simpa using part
      exact ⟨rfl, .inr ⟨rfl, UInt8.toNat_inj.mp length⟩⟩
  · rintro ⟨rfl, ⟨rfl, width⟩ | ⟨rfl, rfl⟩⟩
    · exact .plain width
    · exact @Spells.push 0 [] [] rfl rfl

theorem Spells.eq_of_plain {part : Bytes} {opcode : UInt8} {data : Option Bytes}
    (h : Spells part opcode data) (plain : lengthWidth? opcode = none) : part = [opcode] := by
  cases h with
  | plain => rfl
  | push width =>
    rw [plain] at width
    cases width

theorem spells_of_payload {opcode : UInt8} {rest : Bytes} {size : Nat} {data : Option Bytes}
    (h : payload opcode rest = .ok (size, data)) :
    size ≤ rest.length ∧ Spells (opcode :: rest.take size) opcode data := by
  unfold payload at h
  cases width : lengthWidth? opcode with
  | none =>
    simp only [width] at h
    cases h
    exact ⟨Nat.zero_le _, by simpa using Spells.plain width⟩
  | some w =>
    simp only [width] at h
    split at h
    · cases h
    · next enough =>
      split at h
      · cases h
      · next room =>
        cases h
        have head : (rest.take w).length = w := List.length_take_of_le (Nat.not_lt.mp enough)
        have body : ((rest.drop w).take (dataLength opcode w rest)).length =
            dataLength opcode w rest := List.length_take_of_le (Nat.not_lt.mp room)
        have length : dataLength opcode w (rest.take w) = dataLength opcode w rest := by
          simp only [dataLength, List.take_take, Nat.min_self]
        refine ⟨?_, ?_⟩
        · rw [List.length_drop] at room
          omega
        · rw [List.take_add]
          exact .push (by rw [head, width]) (by rw [head, length, body])

theorem lengthWidth?_cases {opcode : UInt8} {width : Nat} (h : lengthWidth? opcode = some width) :
    width = 0 ∨ width = 1 ∨ width = 2 ∨ width = 4 := by
  unfold lengthWidth? at h
  split_ifs at h <;> simp_all

/-- The data of an operation is shorter than 2³². -/
theorem Spells.length_lt {part : Bytes} {opcode : UInt8} {data : Bytes}
    (h : Spells part opcode (some data)) : data.length < 0x100000000 := by
  cases h with
  | @push _ head _ width length =>
    have code : opcode.toNat < 256 := opcode.toNat_lt
    have spelt : Bytes.toNatLE head < Bytes.modulus head.length := Bytes.toNatLE_lt head
    rw [dataLength, List.take_length] at length
    rcases lengthWidth?_cases width with h | h | h | h <;>
      simp only [h, Bytes.modulus] at length spelt <;> grind

/-- Operations that follow each other from an offset on, with the bytes of each. -/
inductive Parts : Nat → List Bytes → List Operation → Prop
  | nil {offset : Nat} : Parts offset [] []
  | cons {offset : Nat} {part : Bytes} {opcode : UInt8} {data : Option Bytes} {parts : List Bytes}
      {ops : List Operation} (head : Spells part opcode data)
      (tail : Parts (offset + part.length) parts ops) :
      Parts offset (part :: parts) (⟨offset, offset + part.length, opcode, data⟩ :: ops)

theorem parts_of_operationsFrom {offset skip : Nat} {script : Script} {ops : List Operation}
    (h : operationsFrom offset skip script = .ok ops) :
    ∃ parts, parts.flatten = script.drop skip ∧ Parts offset parts ops := by
  induction script generalizing offset skip ops with
  | nil =>
    cases h
    exact ⟨[], by simp, .nil⟩
  | cons opcode rest ih =>
    cases skip with
    | succ skip => exact ih h
    | zero =>
      rw [operationsFrom] at h
      cases found : payload opcode rest with
      | error e => simp [found] at h
      | ok p =>
        obtain ⟨size, data⟩ := p
        obtain ⟨within, spelt⟩ := spells_of_payload found
        simp only [found] at h
        obtain ⟨others, split, rfl⟩ := Fallible.map_eq_ok_iff.mp h
        obtain ⟨parts, flat, placed⟩ := ih split
        have length : (opcode :: rest.take size).length = 1 + size := by
          simp [Nat.min_eq_left within, Nat.add_comm]
        refine ⟨(opcode :: rest.take size) :: parts, ?_, ?_⟩
        · simp [flat]
        · rw [Nat.add_assoc, ← length] at placed ⊢
          exact .cons spelt placed

/-- The operation whose bytes come first, then those of the rest. -/
theorem Spells.operationsFrom_append {part : Bytes} {opcode : UInt8} {data : Option Bytes}
    (h : Spells part opcode data) (offset : Nat) (rest : Bytes) :
    operationsFrom offset 0 (part ++ rest) =
      (operationsFrom (offset + part.length) 0 rest).map
        (⟨offset, offset + part.length, opcode, data⟩ :: ·) := by
  obtain ⟨tail, rfl⟩ := h.exists_eq_cons
  have stop : offset + (opcode :: tail).length = offset + 1 + tail.length := by
    rw [List.length_cons]
    omega
  rw [stop, List.cons_append, operationsFrom_cons, payload_of_spells h]
  simp only [List.drop_left]

theorem Parts.operationsFrom {offset : Nat} {parts : List Bytes} {ops : List Operation}
    (h : Parts offset parts ops) : operationsFrom offset 0 parts.flatten = .ok ops := by
  induction h with
  | nil => rfl
  | cons head tail ih =>
    rw [List.flatten_cons, head.operationsFrom_append, ih]
    rfl

/-- **A script splits into the operations that it is put together from.** -/
theorem operationsFrom_eq_ok_iff {offset : Nat} {script : Script} {ops : List Operation} :
    operationsFrom offset 0 script = .ok ops ↔
      ∃ parts, parts.flatten = script ∧ Parts offset parts ops := by
  constructor
  · exact parts_of_operationsFrom
  · rintro ⟨parts, rfl, placed⟩
    exact placed.operationsFrom

theorem Parts.forall₂ {offset : Nat} {parts : List Bytes} {ops : List Operation}
    (h : Parts offset parts ops) :
    List.Forall₂ (fun op part => Spells part op.opcode op.data) ops parts := by
  induction h with
  | nil => exact .nil
  | cons head tail ih => exact .cons head ih

/-- **Operations can be put one after another**, from any place on. What does not depend on where
an operation stands is kept. -/
theorem exists_parts {α : Type} {r : α → Operation → Prop} {xs : List α} {parts : List Bytes}
    (each : List.Forall₂ (fun x part => ∃ opcode data, Spells part opcode data ∧
      ∀ offset stop, r x ⟨offset, stop, opcode, data⟩) xs parts) (offset : Nat) :
    ∃ ops, Parts offset parts ops ∧ List.Forall₂ r xs ops := by
  induction each generalizing offset with
  | nil => exact ⟨[], .nil, .nil⟩
  | @cons x part xs parts first _ ih =>
    obtain ⟨opcode, data, spelt, related⟩ := first
    obtain ⟨ops, placed, others⟩ := ih (offset + part.length)
    exact ⟨_, .cons spelt placed, .cons (related _ _) others⟩

/-- The bytes of the operations are the slices of the script, whatever stands before. -/
theorem Parts.map_slice {offset : Nat} {parts : List Bytes} {ops : List Operation}
    (h : Parts offset parts ops) (before : Bytes) (place : before.length = offset) :
    ops.map (slice (before ++ parts.flatten)) = parts := by
  induction h generalizing before with
  | nil => rfl
  | @cons offset part opcode data parts ops head tail ih =>
    have first : slice (before ++ (part ++ parts.flatten))
        ⟨offset, offset + part.length, opcode, data⟩ = part := by
      simp [slice, ← place]
    have others := ih (before ++ part) (by rw [List.length_append, place])
    rw [List.append_assoc] at others
    rw [List.flatten_cons, List.map_cons, first, others]

/-- The slices of a script make it up. -/
theorem flatten_slices {script : Script} {ops : List Operation}
    (split : operations script = .ok ops) : (ops.map (slice script)).flatten = script := by
  obtain ⟨parts, rfl, placed⟩ := operationsFrom_eq_ok_iff.mp split
  rw [show ops.map (slice parts.flatten) = parts from placed.map_slice [] rfl]

/-- The operations of a script follow each other, each with its slice. -/
theorem parts_slices {script : Script} {ops : List Operation}
    (split : operations script = .ok ops) : Parts 0 (ops.map (slice script)) ops := by
  obtain ⟨parts, rfl, placed⟩ := operationsFrom_eq_ok_iff.mp split
  rwa [show ops.map (slice parts.flatten) = parts from placed.map_slice [] rfl]

/-- Each slice of a script is its operation. -/
theorem spells_slice {script : Script} {ops : List Operation}
    (split : operations script = .ok ops) :
    ∀ op ∈ ops, Spells (slice script op) op.opcode op.data := by
  have spelt := (parts_slices split).forall₂
  rw [List.forall₂_map_right_iff, List.forall₂_same] at spelt
  exact spelt

/-- Operations are taken out of a script that is put together from their bytes. -/
theorem Parts.findAndDelete {parts : List Bytes} {ops : List Operation} (h : Parts 0 parts ops)
    {pattern : Bytes} (some : pattern ≠ []) :
    findAndDelete parts.flatten pattern = .ok (parts.filter (· ≠ pattern)).flatten := by
  have split : operations parts.flatten = .ok ops := h.operationsFrom
  have slices : ops.map (slice parts.flatten) = parts := h.map_slice [] rfl
  rw [Script.findAndDelete, if_neg some, split]
  simp only [bind, Except.bind, pure, Except.pure, slices]

theorem dataLength_ofNatLE (opcode : UInt8) {width n : Nat} (some : width ≠ 0)
    (fits : n < Bytes.modulus width) :
    dataLength opcode (Bytes.ofNatLE width n).length (Bytes.ofNatLE width n) = n := by
  have whole : (Bytes.ofNatLE width n).length = width := Bytes.length_ofNatLE width n
  rw [dataLength, List.take_length, Bytes.toNatLE_ofNatLE, whole, if_neg some,
    Nat.mod_eq_of_lt fits]

theorem exists_pushHead {size : Nat} (small : size < 0x100000000) :
    ∃ opcode head, pushHead size = opcode :: head ∧ lengthWidth? opcode = some head.length ∧
      dataLength opcode head.length head = size := by
  unfold pushHead
  split
  · next le =>
    have direct : ∀ n : Fin 0x4c, lengthWidth? (UInt8.ofNat n) = some 0 := by decide
    refine ⟨UInt8.ofNat size, [], rfl, direct ⟨size, by omega⟩, ?_⟩
    show size % 256 = size
    omega
  · split
    · next le =>
      have fits : size < Bytes.modulus 1 := by show size < 0x100; omega
      exact ⟨Opcode.pushData1, Bytes.ofNatLE 1 size, rfl, rfl,
        dataLength_ofNatLE _ (by decide) fits⟩
    · split
      · next le =>
        have fits : size < Bytes.modulus 2 := by show size < 0x10000; omega
        exact ⟨Opcode.pushData2, Bytes.ofNatLE 2 size, rfl, rfl,
          dataLength_ofNatLE _ (by decide) fits⟩
      · exact ⟨Opcode.pushData4, Bytes.ofNatLE 4 size, rfl, rfl,
          dataLength_ofNatLE _ (by decide) small⟩

/-- The shortest push is an operation with its data. -/
theorem spells_push {data : Bytes} (small : data.length < 0x100000000) :
    ∃ opcode, Spells (push data) opcode (some data) := by
  obtain ⟨opcode, head, announced, width, length⟩ := exists_pushHead small
  rw [push, announced]
  exact ⟨opcode, .push width length⟩

/-- Few bytes are pushed by a code that says how many they are. -/
theorem spells_push_of_short {data : Bytes} (short : data.length ≤ 0x4b) :
    Spells (push data) (UInt8.ofNat data.length) (some data) ∧
      UInt8.ofNat data.length < Opcode.pushData1 := by
  have direct : ∀ n : Fin 0x4c, lengthWidth? (UInt8.ofNat n) = some 0 ∧
      UInt8.ofNat n < Opcode.pushData1 ∧ (UInt8.ofNat n).toNat = n := by decide
  obtain ⟨width, code, length⟩ := direct ⟨data.length, by omega⟩
  have form : push data = UInt8.ofNat data.length :: ([] ++ data) := by
    rw [push, pushHead, if_pos short]
    rfl
  rw [form]
  exact ⟨.push width length, code⟩

/-- Each push of the script is the shortest one of its data. -/
def PushesShortest (script : Script) : Prop :=
  ∀ ops, operations script = .ok ops →
    ∀ op ∈ ops, ∀ data, op.data = some data → slice script op = push data

theorem pushesShortest_iff_of_split {script : Script} {ops : List Operation}
    (split : operations script = .ok ops) : PushesShortest script ↔
      ∀ op ∈ ops, ∀ data, op.data = some data → slice script op = push data := by
  simp [PushesShortest, split]

/-- The pushes of a script are those among the operations that it is put together from. -/
theorem Parts.pushesShortest_iff {parts : List Bytes} {ops : List Operation}
    (h : Parts 0 parts ops) :
    PushesShortest parts.flatten ↔
      ∀ part ∈ parts, ∀ opcode data, Spells part opcode (some data) → part = push data := by
  have slices : ops.map (slice parts.flatten) = parts := h.map_slice [] rfl
  have spelt := spells_slice h.operationsFrom
  rw [pushesShortest_iff_of_split h.operationsFrom]
  conv => rhs; rw [← slices, List.forall_mem_map]
  refine forall₂_congr fun op member => ?_
  constructor
  · intro shortest opcode data pushes
    exact shortest data ((spelt op member).unique pushes).2
  · intro shortest data pushed
    exact shortest op.opcode data (pushed ▸ spelt op member)

end LedgerScript.Script
