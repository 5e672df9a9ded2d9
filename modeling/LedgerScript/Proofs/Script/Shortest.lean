import LedgerScript.Proofs.Script.Parts

namespace LedgerScript.Script

/-- The fewest bytes in which the length of so much data can be spelt. -/
def leastWidth (size : Nat) : Nat :=
  if size ≤ 0x4b then 0 else if size ≤ 0xff then 1 else if size ≤ 0xffff then 2 else 4

/-- The code and the length that announce so much data, the length spelt in so many bytes. -/
def headOf (width size : Nat) : Bytes :=
  match width with
  | 0 => [UInt8.ofNat size]
  | 1 => Opcode.pushData1 :: Bytes.ofNatLE 1 size
  | 2 => Opcode.pushData2 :: Bytes.ofNatLE 2 size
  | width => Opcode.pushData4 :: Bytes.ofNatLE width size

theorem length_headOf (width size : Nat) : (headOf width size).length = width + 1 := by
  unfold headOf
  split <;> simp

theorem pushHead_eq (size : Nat) : pushHead size = headOf (leastWidth size) size := by
  unfold pushHead leastWidth
  split_ifs <;> rfl

section Head

variable {opcode : UInt8} {head : Bytes} {size : Nat}

/-- What spells a length is what the length is written as. -/
theorem ofNatLE_of_dataLength (some : head.length ≠ 0)
    (length : dataLength opcode head.length head = size) :
    Bytes.ofNatLE head.length size = head ∧ size < Bytes.modulus head.length := by
  rw [dataLength, if_neg some, List.take_length] at length
  subst length
  exact ⟨Bytes.ofNatLE_toNatLE head, Bytes.toNatLE_lt head⟩

/-- A code and a length are the head of their width, which is wide enough. -/
theorem head_eq (width : lengthWidth? opcode = some head.length)
    (length : dataLength opcode head.length head = size) :
    opcode :: head = headOf head.length size ∧ leastWidth size ≤ head.length := by
  unfold lengthWidth? at width
  split_ifs at width with direct one two four
  · have empty : head = [] := List.length_eq_zero_iff.mp (Option.some.inj width).symm
    subst empty length
    have code : opcode.toNat ≤ 0x4b := Nat.le_of_lt_succ (UInt8.lt_iff_toNat_lt.mp direct)
    exact ⟨by simp [headOf, dataLength], by simp [leastWidth, dataLength, code]⟩
  all_goals
    rename opcode = _ => code
    subst code
    have bytes : head.length = _ := (Option.some.inj width).symm
    obtain ⟨spelt, small⟩ := ofNatLE_of_dataLength (by omega) length
    rw [bytes] at spelt small ⊢
    refine ⟨congrArg (_ :: ·) spelt.symm, ?_⟩
    simp only [Bytes.modulus] at small
    unfold leastWidth
    split_ifs <;> omega

end Head

section Data

variable {part : Bytes} {opcode : UInt8} {data : Bytes}

/-- **An operation with data is a head of some width, and the data after it.** -/
theorem Spells.exists_head (h : Spells part opcode (some data)) :
    ∃ width, part = headOf width data.length ++ data ∧ leastWidth data.length ≤ width := by
  cases h with
  | @push _ head _ width length =>
    obtain ⟨announced, enough⟩ := head_eq width length
    exact ⟨head.length, by rw [← announced, List.cons_append], enough⟩

/-- No operation that pushes the data is shorter than the shortest push. -/
theorem Spells.length_push_le (h : Spells part opcode (some data)) :
    (Script.push data).length ≤ part.length := by
  obtain ⟨width, rfl, enough⟩ := h.exists_head
  simp only [Script.push, pushHead_eq, List.length_append, length_headOf]
  omega

/-- No other operation that pushes the data is as short as the shortest push. -/
theorem Spells.eq_push (h : Spells part opcode (some data))
    (short : part.length = (Script.push data).length) : part = Script.push data := by
  obtain ⟨width, rfl, enough⟩ := h.exists_head
  rw [Script.push, pushHead_eq] at short ⊢
  simp only [List.length_append, length_headOf] at short
  rw [show width = leastWidth data.length by omega]

end Data

/-- A script is one operation exactly if its bytes are that operation. -/
theorem operations_eq_singleton_iff {script : Script} {op : Operation} :
    operations script = .ok [op] ↔
      Spells script op.opcode op.data ∧ op.offset = 0 ∧ op.stop = script.length := by
  rw [operations, operationsFrom_eq_ok_iff]
  constructor
  · rintro ⟨parts, rfl, placed⟩
    cases placed with
    | cons head tail =>
      cases tail
      simpa using head
  · rintro ⟨spelt, first, last⟩
    obtain ⟨offset, stop, opcode, data⟩ := op
    obtain ⟨rfl, rfl⟩ : offset = 0 ∧ stop = script.length := ⟨first, last⟩
    refine ⟨[script], by simp, ?_⟩
    have placed : Parts 0 [script] [⟨0, 0 + script.length, opcode, data⟩] := .cons spelt .nil
    simpa using placed

/-- **The shortest push of some data is one operation with it**, unless there is too much of it for
its length to be spelt. **Any other script of one operation with the data is longer.** -/
theorem push_shortest (data : Bytes) :
    (data.length < 0x100000000 ↔ ∃ op, operations (push data) = .ok [op] ∧
      op.data = some data ∧ op.offset = 0 ∧ op.stop = (push data).length) ∧
    ∀ script op, operations script = .ok [op] → op.data = some data →
      (push data).length ≤ script.length ∧
        (script.length = (push data).length → script = push data) := by
  constructor
  · constructor
    · intro small
      obtain ⟨opcode, spelt⟩ := spells_push small
      exact ⟨⟨0, (push data).length, opcode, some data⟩,
        operations_eq_singleton_iff.mpr ⟨spelt, rfl, rfl⟩, rfl, rfl, rfl⟩
    · rintro ⟨op, split, pushed, -, -⟩
      have spelt := (operations_eq_singleton_iff.mp split).1
      rw [pushed] at spelt
      exact spelt.length_lt
  · intro script op split pushed
    have spelt := (operations_eq_singleton_iff.mp split).1
    rw [pushed] at spelt
    exact ⟨spelt.length_push_le, spelt.eq_push⟩

/-- So many bytes that their number has to be spelt, in one byte at least. -/
def sevens : Bytes := List.replicate 76 7

theorem push_shortest_sevens :
    sevens.length < 0x100000000 ∧
    (∃ op, operations (0x4c :: 76 :: sevens) = .ok [op] ∧ op.data = some sevens ∧
      op.offset = 0 ∧ op.stop = 78) ∧
    operations (0x4d :: 76 :: 0 :: sevens) = .ok [⟨0, 79, 0x4d, some sevens⟩] ∧
    (push sevens).length ≤ (0x4d :: 76 :: 0 :: sevens).length := by
  have small : sevens.length < 0x100000000 := by decide
  have wide : operations (0x4d :: 76 :: 0 :: sevens) = .ok [⟨0, 79, 0x4d, some sevens⟩] := by
    decide +kernel
  obtain ⟨pushed, shortest⟩ := push_shortest sevens
  exact ⟨small, pushed.mp small, wide, (shortest _ _ wide rfl).1⟩

end LedgerScript.Script
