import LedgerScript.Proofs.Machine.Overlay
import LedgerScript.Proofs.Script.Covered
import LedgerScript.Proofs.Script.Token

namespace LedgerScript.Script

/-- The operation is what the word says: a push of the bytes of a literal, and else a code that
stands alone. -/
inductive Denotes (table : Table) (script : Script) : String → Operation → Prop
  | literal {word : String} {op : Operation} {data : Bytes} (literal : IsLiteral word data)
      (pushed : op.data = some data) : Denotes table script word op
  | code {word : String} {op : Operation} (noLiteral : ¬ literalMark <+: word.toList)
      (value : table.valueOf? word = some op.opcode ∨ table.Numbers word op.opcode)
      (alone : slice script op = [op.opcode]) : Denotes table script word op

/-- A code alone is an operation exactly if no data has to follow it. -/
theorem exists_spells_alone_iff {value : UInt8} :
    (∃ opcode data, Spells [value] opcode data) ↔ ¬(0x01 ≤ value ∧ value ≤ 0x4e) := by
  have widths : ∀ value : UInt8, (lengthWidth? value = none ∨ value = 0) ↔
      ¬(0x01 ≤ value ∧ value ≤ 0x4e) := Bytes.forall_byte (by decide +kernel)
  simp only [spells_alone_iff, exists_and_left, exists_eq_left, exists_or]
  exact widths value

section Token

variable {table : Table} {word : String} {part : Bytes}

/-- A word stands for an operation unless it is the number of a code that needs data. -/
theorem exists_spells_of_ofToken (token : ofToken table word = .ok part)
    (small : ∀ data, IsLiteral word data → data.length < 0x100000000)
    (bare : ∀ value, table.Numbers word value → ¬(0x01 ≤ value ∧ value ≤ 0x4e)) :
    ∃ opcode data, Spells part opcode data := by
  obtain ⟨data, literal, rfl⟩ | ⟨-, value, named | number, rfl⟩ := ofToken_eq_ok_iff.mp token
  · obtain ⟨opcode, spelt⟩ := spells_push (small data literal)
    exact ⟨opcode, some data, spelt⟩
  · have nameable := (Table.valueOf?_resolves named).1
    exact exists_spells_alone_iff.mpr ((Table.isNameable_iff value).mp nameable)
  · exact exists_spells_alone_iff.mpr (bare value number)

/-- An operation whose bytes a word stands for is what the word says. -/
theorem denotes_of_ofToken {script : Script} {op : Operation}
    (token : ofToken table word = .ok (slice script op))
    (small : ∀ data, IsLiteral word data → data.length < 0x100000000)
    (spelt : Spells (slice script op) op.opcode op.data) : Denotes table script word op := by
  obtain ⟨data, literal, shortest⟩ | ⟨noLiteral, value, stands, alone⟩ := ofToken_eq_ok_iff.mp token
  · obtain ⟨opcode, own⟩ := spells_push (small data literal)
    rw [shortest] at spelt
    exact .literal literal (spelt.unique own).2
  · obtain ⟨rest, begins⟩ := spelt.exists_eq_cons
    cases begins.symm.trans alone
    exact .code noLiteral stands begins

theorem Denotes.alone_of_numbers {script : Script} {op : Operation} {value : UInt8}
    (denotes : Denotes table script word op) (number : table.Numbers word value) :
    slice script op = [value] := by
  obtain ⟨unnamed, number⟩ := numbers_iff.mp number
  cases denotes with
  | literal literal pushed =>
    obtain ⟨digits, rfl, -⟩ := literal
    have other : after? unknownMark ("0x" ++ digits).toList = none := by
      rw [String.toList_append, after?_eq_none_iff]
      exact fun begins => absurd (List.cons_prefix_cons.mp begins).1 (by decide)
    rw [other] at number
    cases number
  | code noLiteral stands alone =>
    obtain named | number' := stands
    · cases unnamed.symm.trans named
    · cases number.symm.trans (numbers_iff.mp number').2
      exact alone

end Token

/-- **An accepted text denotes one operation for each of its words, in order, exactly if no word is
the number of a code that needs data after it.** -/
theorem operations_ofText_iff {table : Table} {text : String} {script : Script}
    (read : ofText table text = .ok script)
    (small : ∀ word ∈ Text.words text, ∀ data, IsLiteral word data → data.length < 0x100000000) :
    (∃ ops, operations script = .ok ops ∧
        List.Forall₂ (Denotes table script) (Text.words text) ops) ↔
      ∀ word ∈ Text.words text, ∀ value, table.Numbers word value →
        ¬(0x01 ≤ value ∧ value ≤ 0x4e) := by
  obtain ⟨parts, tokens, flat⟩ := Fallible.bind_eq_ok_iff.mp read
  cases flat
  constructor
  · rintro ⟨ops, split, denoted⟩ word member value number
    obtain ⟨op, place, denotes⟩ := Fallible.exists_of_forall₂ denoted word member
    have spelt := spells_slice split op place
    rw [denotes.alone_of_numbers number] at spelt
    exact exists_spells_alone_iff.mp ⟨_, _, spelt⟩
  · intro bare
    have spelled : Spelled parts := by
      intro part place
      obtain ⟨word, member, token⟩ := Fallible.exists_of_mem_mapM tokens part place
      exact exists_spells_of_ofToken token (small word member) (bare word member)
    obtain ⟨ops, placed⟩ := spelled.parts 0
    have split : operations parts.flatten = .ok ops := placed.operationsFrom
    have slices : ops.map (slice parts.flatten) = parts := placed.map_slice [] rfl
    have each := Fallible.mapM_eq_ok_iff.mp tokens
    rw [← slices, List.forall₂_map_right_iff] at each
    -- each operation beside its word, with what is known of either
    have worded := (List.forall₂_and_left _ _).mpr ⟨small, each⟩
    have beside : List.Forall₂ (fun op word => Spells (slice parts.flatten op) op.opcode op.data ∧
        (∀ data, IsLiteral word data → data.length < 0x100000000) ∧
        ofToken table word = .ok (slice parts.flatten op)) ops (Text.words text) :=
      (List.forall₂_and_left _ _).mpr ⟨spells_slice split, worded.flip⟩
    exact ⟨ops, split, beside.flip.imp fun word op ⟨spelt, few, token⟩ =>
      denotes_of_ofToken token few spelt⟩

/-- Data, a standard name that an override has taken over, nothing by its literal and by both of its
names, and the number of a code that has no name. -/
def assortment : String := "0x0708 OP_TRUE\t0x OP_0 OP_FALSE\n OP_UNKNOWN_+fF "

theorem operations_ofText_iff_assortment :
    let table := Table.standard.overlay [⟨0xc1, "OP_TRUE", .nop⟩]
    ofText table assortment = .ok [2, 7, 8, 0xc1, 0, 0, 0, 0xff] ∧
      ∃ ops, operations [2, 7, 8, 0xc1, 0, 0, 0, 0xff] = .ok ops ∧
        List.Forall₂ (Denotes table [2, 7, 8, 0xc1, 0, 0, 0, 0xff])
          ["0x0708", "OP_TRUE", "0x", "OP_0", "OP_FALSE", "OP_UNKNOWN_+fF"] ops := by
  intro table
  have read : ofText table assortment = .ok [2, 7, 8, 0xc1, 0, 0, 0, 0xff] := by decide +kernel
  have words : Text.words assortment =
      ["0x0708", "OP_TRUE", "0x", "OP_0", "OP_FALSE", "OP_UNKNOWN_+fF"] := by decide +kernel
  have literals : ∀ word ∈ Text.words assortment, ∀ digits ∈ after? literalMark word.toList,
      ∀ data ∈ (Hex.decode (String.ofList digits)).toOption, data.length < 0x100000000 := by
    decide +kernel
  have numbers : ∀ word ∈ Text.words assortment,
      ∀ value ∈ (after? unknownMark word.toList).bind byteOfText?,
        ¬(0x01 ≤ value ∧ value ≤ 0x4e) := by decide +kernel
  refine ⟨read, words ▸ (operations_ofText_iff read ?_).mpr ?_⟩
  · intro word member data literal
    obtain ⟨digits, found, decoded⟩ := isLiteral_iff.mp literal
    exact literals word member digits found data (by rw [decoded]; rfl)
  · exact fun word member value number => numbers word member value (numbers_iff.mp number).2

/-- The number of a code that needs data takes it from the word that follows, or finds none. -/
theorem operations_ofText_starved :
    ofText .standard "OP_UNKNOWN_01 OP_1" = .ok [0x01, 0x51] ∧
    operations [0x01, 0x51] = .ok [⟨0, 2, 0x01, some [0x51]⟩] ∧
    (¬ ∃ ops, operations [0x01, 0x51] = .ok ops ∧
      List.Forall₂ (Denotes .standard [0x01, 0x51]) (Text.words "OP_UNKNOWN_01 OP_1") ops) ∧
    ofText .standard "OP_UNKNOWN_4c" = .ok [0x4c] ∧
    operations [0x4c] = .error (.truncated 1 0) := by
  have words : Text.words "OP_UNKNOWN_01 OP_1" = ["OP_UNKNOWN_01", "OP_1"] := by decide +kernel
  have split : operations [0x01, 0x51] = .ok [⟨0, 2, 0x01, some [0x51]⟩] := rfl
  refine ⟨by decide +kernel, split, ?_, by decide +kernel, rfl⟩
  rintro ⟨ops, parsed, denoted⟩
  cases split.symm.trans parsed
  have count := denoted.length_eq
  rw [words] at count
  cases count

end LedgerScript.Script
