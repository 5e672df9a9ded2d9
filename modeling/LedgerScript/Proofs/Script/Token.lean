import LedgerScript.Script.Text

namespace LedgerScript

/-- The word names no code, but it is the number of one. -/
def Table.Numbers (table : Table) (word : String) (value : UInt8) : Prop :=
  table.valueOf? word = none ∧
    ∃ digits, word = "OP_UNKNOWN_" ++ digits ∧ Script.byteOfText? digits.toList = some value

namespace Script

/-- The word is a literal of the data. -/
def IsLiteral (word : String) (data : Bytes) : Prop :=
  ∃ digits, word = "0x" ++ digits ∧ Hex.decode digits = .ok data

theorem after?_eq_none_iff {start text : List Char} :
    after? start text = none ↔ ¬ start <+: text := by
  rw [List.prefix_iff_eq_take]
  simp [after?, eq_comm]

theorem after?_append (start rest : List Char) : after? start (start ++ rest) = some rest := by
  simp [after?]

theorem after?_eq_some_iff {start text rest : List Char} :
    after? start text = some rest ↔ text = start ++ rest := by
  constructor
  · intro found
    obtain ⟨tail, rfl⟩ : start <+: text := Decidable.of_not_not fun other => by
      cases found.symm.trans (after?_eq_none_iff.mpr other)
    cases (after?_append start tail).symm.trans found
    rfl
  · rintro rfl
    exact after?_append start rest

theorem after?_toList_eq_some_iff {start word : String} {rest : List Char} :
    after? start.toList word.toList = some rest ↔ word = start ++ String.ofList rest := by
  rw [after?_eq_some_iff, ← String.toList_inj, String.toList_append, String.toList_ofList]

theorem isLiteral_iff {word : String} {data : Bytes} :
    IsLiteral word data ↔ ∃ digits, after? literalMark word.toList = some digits ∧
      Hex.decode (String.ofList digits) = .ok data := by
  constructor
  · rintro ⟨digits, rfl, decoded⟩
    refine ⟨digits.toList, after?_toList_eq_some_iff.mpr ?_, ?_⟩ <;> rw [String.ofList_toList]
    exact decoded
  · rintro ⟨digits, found, decoded⟩
    exact ⟨_, after?_toList_eq_some_iff.mp found, decoded⟩

theorem numbers_iff {table : Table} {word : String} {value : UInt8} :
    table.Numbers word value ↔ table.valueOf? word = none ∧
      (after? unknownMark word.toList).bind byteOfText? = some value := by
  refine and_congr_right fun _ => ?_
  rw [Option.bind_eq_some_iff]
  constructor
  · rintro ⟨digits, rfl, number⟩
    refine ⟨digits.toList, after?_toList_eq_some_iff.mpr ?_, number⟩
    rw [String.ofList_toList]
  · rintro ⟨digits, found, number⟩
    refine ⟨_, after?_toList_eq_some_iff.mp found, ?_⟩
    rwa [String.toList_ofList]

/-- **What a word stands for**: the shortest push of the bytes of a literal, or one code. -/
theorem ofToken_eq_ok_iff {table : Table} {word : String} {part : Bytes} :
    ofToken table word = .ok part ↔
      (∃ data, IsLiteral word data ∧ part = push data) ∨
      (¬ literalMark <+: word.toList ∧ ∃ value,
        (table.valueOf? word = some value ∨ table.Numbers word value) ∧ part = [value]) := by
  simp only [isLiteral_iff, numbers_iff, ← after?_eq_none_iff]
  unfold ofToken
  cases after? literalMark word.toList with
  | some digits =>
    cases decoded : Hex.decode (String.ofList digits) <;> simp [decoded, eq_comm]
  | none =>
    cases table.valueOf? word with
    | some value => simp [eq_comm]
    | none => cases (after? unknownMark word.toList).bind byteOfText? <;> simp [eq_comm]

end Script
end LedgerScript
