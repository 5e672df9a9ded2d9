import LedgerScript.Proofs.Fallible
import LedgerScript.Proofs.Script.Names
import LedgerScript.Proofs.Script.Parts
import LedgerScript.Proofs.Script.Token

namespace LedgerScript

open Text (IsWord)

namespace Script

theorem isBlank_encode (bytes : Bytes) :
    ∀ c ∈ (Hex.encode bytes).toList, Text.isBlank c = false := by
  have digit : ∀ n : UInt8, n < 16 → Text.isBlank (Hex.digit n) = false :=
    Bytes.forall_byte (by decide +kernel)
  intro c member
  rw [Hex.encode, String.toList_ofList] at member
  obtain ⟨b, -, place⟩ := List.mem_flatMap.mp member
  simp only [Hex.digits, List.mem_cons, List.not_mem_nil, or_false] at place
  rcases place with rfl | rfl
  · exact digit _ (Hex.high_lt b)
  · exact digit _ (Hex.low_lt b)

theorem isWord_literal (data : Bytes) : IsWord ("0x" ++ Hex.encode data) :=
  IsWord.append (by decide) (isBlank_encode data)

theorem isWord_unknown (value : UInt8) : IsWord ("OP_UNKNOWN_" ++ Hex.encode [value]) :=
  IsWord.append (by decide) (isBlank_encode [value])

/-- A literal stands for the shortest push of its bytes. -/
theorem ofToken_literal (table : Table) (data : Bytes) :
    ofToken table ("0x" ++ Hex.encode data) = .ok (push data) :=
  ofToken_eq_ok_iff.mpr (.inl ⟨data, ⟨_, rfl, Hex.decode_encode data⟩, rfl⟩)

theorem ofToken_name {table : Table} {name : String} (readable : Readable name) {value : UInt8}
    (h : table.valueOf? name = some value) : ofToken table name = .ok [value] :=
  ofToken_eq_ok_iff.mpr (.inr ⟨readable.2.1, value, .inl h, rfl⟩)

theorem byteOfText?_encode (value : UInt8) :
    byteOfText? (Hex.encode [value]).toList = some value := by
  have all : ∀ v : UInt8, byteOfText? (Hex.encodeChars [v]) = some v :=
    Bytes.forall_byte (by decide +kernel)
  rw [Hex.encode, String.toList_ofList]
  exact all value

/-- The number of a code stands for the code, since no name begins like it. -/
theorem ofToken_unknown {table : Table} (readable : table.Readable) (value : UInt8) :
    ofToken table ("OP_UNKNOWN_" ++ Hex.encode [value]) = .ok [value] := by
  have text : ("OP_UNKNOWN_" ++ Hex.encode [value]).toList =
      unknownMark ++ (Hex.encode [value]).toList := String.toList_append
  have noLiteral : ¬ literalMark <+: ("OP_UNKNOWN_" ++ Hex.encode [value]).toList := by
    rw [text]
    exact fun begins => absurd (List.cons_prefix_cons.mp begins).1 (by decide)
  have noName : table.valueOf? ("OP_UNKNOWN_" ++ Hex.encode [value]) = none := by
    rw [Option.eq_none_iff_forall_ne_some]
    intro v found
    have apart := (Table.readable_of_valueOf? readable found).2.2
    rw [text] at apart
    exact apart (List.prefix_append _ _)
  have number : table.Numbers ("OP_UNKNOWN_" ++ Hex.encode [value]) value :=
    ⟨noName, _, rfl, byteOfText?_encode value⟩
  exact ofToken_eq_ok_iff.mpr (.inr ⟨noLiteral, value, .inr number, rfl⟩)

/-- **The word for a code stands for the code**, whatever names its table gives. -/
theorem ofToken_token {table : Table} (readable : table.Readable) (value : UInt8) :
    ofToken table (table.token value) = .ok [value] := by
  unfold Table.token
  cases named : table.textName? value with
  | none => exact ofToken_unknown readable value
  | some name =>
    have resolved : table.valueOf? name = some value := Table.valueOf?_textName? named
    exact ofToken_name (Table.readable_of_valueOf? readable resolved) resolved

theorem isWord_token {table : Table} (readable : table.Readable) (value : UInt8) :
    IsWord (table.token value) := by
  unfold Table.token
  cases named : table.textName? value with
  | none => exact isWord_unknown value
  | some name =>
    have resolved : table.valueOf? name = some value := Table.valueOf?_textName? named
    exact (Table.readable_of_valueOf? readable resolved).1

/-- What the word for an operation stands for: the shortest push of its data, if it pushes some,
else its code alone. -/
def renewed (op : Operation) : Bytes :=
  match op.data with
  | some (b :: rest) => push (b :: rest)
  | _ => [op.opcode]

theorem ofToken_tokenOf {table : Table} (readable : table.Readable) (op : Operation) :
    ofToken table (tokenOf table op) = .ok (renewed op) := by
  obtain ⟨offset, stop, opcode, data⟩ := op
  cases data with
  | none => exact ofToken_token readable opcode
  | some data =>
    cases data with
    | nil => exact ofToken_token readable opcode
    | cons b rest => exact ofToken_literal table (b :: rest)

theorem isWord_tokenOf {table : Table} (readable : table.Readable) (op : Operation) :
    IsWord (tokenOf table op) := by
  unfold tokenOf
  split
  · next b rest _ => exact isWord_literal (b :: rest)
  · exact isWord_token readable op.opcode

theorem toText_eq {table : Table} {script : Script} {ops : List Operation}
    (split : operations script = .ok ops) :
    toText table script = .ok (" ".intercalate (ops.map (tokenOf table))) := by
  simp only [toText, split]
  rfl

theorem words_tokens {table : Table} (readable : table.Readable) (ops : List Operation) :
    Text.words (" ".intercalate (ops.map (tokenOf table))) = ops.map (tokenOf table) := by
  apply Text.words_intercalate
  intro token member
  obtain ⟨op, -, rfl⟩ := List.mem_map.mp member
  exact isWord_tokenOf readable op

/-- Every text of a script is read: it stands for its operations, each as its word says. -/
theorem ofText_toText_eq {table : Table} (readable : table.Readable) {script : Script}
    {ops : List Operation} (split : operations script = .ok ops) :
    ∃ text, toText table script = .ok text ∧ ofText table text = .ok (ops.map renewed).flatten := by
  have read : (ops.map (tokenOf table)).mapM (ofToken table) = .ok (ops.map renewed) := by
    rw [Fallible.mapM_eq_ok_iff, List.forall₂_map_left_iff, List.forall₂_map_right_iff,
      List.forall₂_same]
    exact fun op _ => ofToken_tokenOf readable op
  refine ⟨_, toText_eq split, ?_⟩
  simp only [ofText, words_tokens readable, read]
  rfl

/-- What a shortest push or a code alone is renewed to is the same. -/
theorem renewed_eq {part : Bytes} {op : Operation} (spelt : Spells part op.opcode op.data)
    (shortest : ∀ data, op.data = some data → part = push data) : renewed op = part := by
  obtain ⟨offset, stop, opcode, data⟩ := op
  cases spelt with
  | plain width => rfl
  | @push _ head data width length =>
    have same := shortest data rfl
    cases data with
    | nil =>
      have code : opcode = 0 := (List.cons.inj same).1
      rw [same, code]
      rfl
    | cons b rest => exact same.symm

/-- **A script is what its text stands for**, under every table whose overrides have readable names,
provided that each of its pushes is the shortest. -/
theorem ofText_toText {table : Table} (readable : table.Readable) {script : Script}
    {ops : List Operation} (split : operations script = .ok ops)
    (shortest : ∀ op ∈ ops, ∀ data, op.data = some data → slice script op = push data) :
    ∃ text, toText table script = .ok text ∧ ofText table text = .ok script := by
  obtain ⟨text, written, read⟩ := ofText_toText_eq readable split
  have same : ops.map renewed = ops.map (slice script) := by
    apply List.map_congr_left
    intro op member
    exact renewed_eq (spells_slice split op member) (shortest op member)
  rw [same, flatten_slices split] at read
  exact ⟨text, written, read⟩

/-- Names that clash: with a standard name that has an alias, with one that has none, with an alias,
and among each other. -/
def clashing : Table :=
  ⟨[⟨0xb0, "OP_CHECKLOCKTIMEVERIFY", .nop⟩, ⟨0xc0, "OP_DUP", .nop⟩, ⟨0xc1, "OP_TRUE", .nop⟩,
    ⟨0xc2, "OP_TRUE", .disabled⟩]⟩

/-- A use of each of these codes, the code without a name, nothing, and two bytes of data. -/
def clashes : Script := [0xb0, 0xb1, 0x76, 0xc0, 0xc1, 0xc2, 0x51, 0xff, 0, 2, 7, 8]

def clashesOps : List Operation :=
  [⟨0, 1, 0xb0, none⟩, ⟨1, 2, 0xb1, none⟩, ⟨2, 3, 0x76, none⟩, ⟨3, 4, 0xc0, none⟩,
    ⟨4, 5, 0xc1, none⟩, ⟨5, 6, 0xc2, none⟩, ⟨6, 7, 0x51, none⟩, ⟨7, 8, 0xff, none⟩,
    ⟨8, 9, 0, some []⟩, ⟨9, 12, 2, some [7, 8]⟩]

theorem ofText_toText_clashing :
    clashing.Readable ∧ operations clashes = .ok clashesOps ∧
    (∀ op ∈ clashesOps, ∀ data, op.data = some data → slice clashes op = push data) ∧
    ∃ text, toText clashing clashes = .ok text ∧ ofText clashing text = .ok clashes := by
  have readable : clashing.Readable := by decide
  have split : operations clashes = .ok clashesOps := rfl
  have shortest : ∀ op ∈ clashesOps, ∀ data ∈ op.data, slice clashes op = push data := by decide
  exact ⟨readable, split, shortest, ofText_toText readable split shortest⟩

end Script
end LedgerScript
