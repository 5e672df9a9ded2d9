import LedgerScript.Proofs.Template.Matching

namespace LedgerScript.Template

open Script (Spells operations tokenOf slice lengthWidth? push)

/-- The code is an operation by itself, and the word for it is no placeholder. -/
structure Bare (table : Table) (value : UInt8) : Prop where
  alone : lengthWidth? value = none
  plain : placeholder? (table.token value) = none

/-- The text is the words for bare codes, one placeholder, and the words for further bare codes. -/
structure OneSlot (template : Template) (table : Table) (name : String) (kind : SlotKind)
    (before after : Bytes) : Prop where
  slots : template.slots = [(name, kind)]
  words : ∃ want, placeholder? want = some name ∧
    Text.words template.text = before.map table.token ++ want :: after.map table.token
  before_bare : ∀ value ∈ before, Bare table value
  after_bare : ∀ value ∈ after, Bare table value

variable {template : Template} {table : Table} {name : String} {kind : SlotKind}
  {before after : Bytes}

theorem flatten_around (before part after : Bytes) :
    (before.map ([·]) ++ part :: after.map ([·])).flatten = before ++ part ++ after := by
  simp [← List.flatMap_def]

theorem fillWord_bare {values : List (String × String)} {codes : Bytes}
    (bare : ∀ value ∈ codes, Bare table value) :
    List.Forall₂ (fun want word => template.fillWord values want = .ok word)
      (codes.map table.token) (codes.map table.token) := by
  rw [List.forall₂_same]
  intro word member
  obtain ⟨value, place, rfl⟩ := List.mem_map.mp member
  rw [fillWord, (bare value place).plain]

theorem ofToken_codes (readable : table.Readable) (codes : Bytes) :
    List.Forall₂ (fun word part => Text.IsWord word ∧ Script.ofToken table word = .ok part)
      (codes.map table.token) (codes.map ([·])) := by
  rw [List.forall₂_map_left_iff, List.forall₂_map_right_iff, List.forall₂_same]
  exact fun value _ => ⟨Script.isWord_token readable value, Script.ofToken_token readable value⟩

/-- **Filled, the template is the codes with the shortest push of the data between them.** -/
theorem OneSlot.toScript (one : OneSlot template table name kind before after)
    (readable : table.Readable) {value : String} {data : Bytes}
    (given : literalOf name value kind = .ok (literal data)) :
    template.toScript [(name, value)] table = .ok (before ++ push data ++ after) := by
  obtain ⟨want, place, words⟩ := one.words
  have slot : template.fillWord [(name, value)] want = .ok (literal data) := by
    rw [fillWord, place, one.slots]
    simpa using given
  have filled : List.Forall₂ (fun want word => template.fillWord [(name, value)] want = .ok word)
      (Text.words template.text)
      (before.map table.token ++ literal data :: after.map table.token) := by
    rw [words]
    exact List.rel_append (fillWord_bare one.before_bare)
      (.cons slot (fillWord_bare one.after_bare))
  rw [← flatten_around]
  exact toScript_of_words filled (List.rel_append (ofToken_codes readable before)
    (.cons ⟨Script.isWord_literal data, Script.ofToken_literal table data⟩
      (ofToken_codes readable after)))

/-- The script is the codes with an operation between them that pushes the data, in whatever form.
-/
def Encloses (before after data : Bytes) (script : Script) : Prop :=
  ∃ part opcode, Spells part opcode (some data) ∧ script = before ++ part ++ after

theorem encloses_push {data : Bytes} (small : data.length < 0x100000000) (before after : Bytes) :
    Encloses before after data (before ++ push data ++ after) := by
  obtain ⟨opcode, spelt⟩ := Script.spells_push small
  exact ⟨_, opcode, spelt, rfl⟩

theorem Encloses.front {data : Bytes} {script : Script}
    (encloses : Encloses before after data script) : before <+: script := by
  obtain ⟨part, opcode, -, rfl⟩ := encloses
  exact ⟨part ++ after, (List.append_assoc ..).symm⟩

theorem Encloses.unique {data other : Bytes} {script : Script}
    (h : Encloses before after data script) (h' : Encloses before after other script) :
    data = other := by
  obtain ⟨part, opcode, spelt, rfl⟩ := h
  obtain ⟨part', opcode', spelt', same⟩ := h'
  obtain rfl : part = part' := List.append_cancel_left (List.append_cancel_right same)
  exact Option.some.inj (spelt.unique spelt').2

/-- The word for a bare code is the word of no other operation. -/
theorem part_of_token (readable : table.Readable) {value : UInt8} (bare : Bare table value)
    {op : Operation} {part : Bytes} (spelt : Spells part op.opcode op.data)
    (same : tokenOf table op = table.token value) : part = [value] := by
  have stands : Script.ofToken table (tokenOf table op) = .ok [value] :=
    same ▸ Script.ofToken_token readable value
  have renewed : Script.renewed op = [value] :=
    Except.ok.inj ((Script.ofToken_tokenOf readable op).symm.trans stands)
  unfold Script.renewed at renewed
  split at renewed
  · -- a push of some bytes is longer than a code
    next b rest _ =>
    have length := congrArg List.length renewed
    rw [Script.length_push] at length
    simp only [List.length_cons, List.length_nil] at length
    split_ifs at length <;> omega
  · cases renewed
    exact spelt.eq_of_plain bare.alone

theorem slices_of_admitted (readable : table.Readable) {script : Script} {ops : List Operation}
    (spelt : ∀ op ∈ ops, Spells (slice script op) op.opcode op.data) {codes : Bytes}
    (bare : ∀ value ∈ codes, Bare table value)
    (admitted : List.Forall₂ (fun op want => template.Admits (tokenOf table op) want) ops
      (codes.map table.token)) : ops.map (slice script) = codes.map ([·]) := by
  induction codes generalizing ops with
  | nil =>
    cases admitted
    rfl
  | cons value codes ih =>
    cases admitted with
    | @cons op _ ops _ first rest =>
      rw [List.forall_mem_cons] at spelt bare
      have same : tokenOf table op = table.token value := (admits_iff_of_word bare.1.plain).mp first
      rw [List.map_cons, List.map_cons, part_of_token readable bare.1 spelt.1 same,
        ih spelt.2 bare.2 rest]

theorem held_bare {codes : Bytes} (bare : ∀ value ∈ codes, Bare table value)
    (words : List String) : held words (codes.map table.token) = [] := by
  apply held_of_plain
  intro word member
  obtain ⟨value, place, rfl⟩ := List.mem_map.mp member
  exact (bare value place).plain

/-- Operations that are admitted are the codes before the slot, a push in it, and the codes after
it. -/
theorem OneSlot.exists_of_admitted (one : OneSlot template table name kind before after)
    {ops : List Operation} (admitted : List.Forall₂ template.Admits (ops.map (tokenOf table))
      (Text.words template.text)) :
    ∃ first op last, ops = first ++ op :: last ∧
      List.Forall₂ (fun op want => template.Admits (tokenOf table op) want) first
        (before.map table.token) ∧
      List.Forall₂ (fun op want => template.Admits (tokenOf table op) want) last
        (after.map table.token) ∧
      isLiteral (tokenOf table op) kind = true ∧
      held (ops.map (tokenOf table)) (Text.words template.text) = [(name, tokenOf table op)] := by
  obtain ⟨want, place, words⟩ := one.words
  rw [List.forall₂_map_left_iff, words] at admitted
  obtain ⟨first, others, rfl, earlier, rest⟩ := Fallible.exists_of_forall₂_append admitted
  cases rest with
  | @cons op _ last _ own later =>
    refine ⟨first, op, last, rfl, earlier, later, ?_, ?_⟩
    · obtain ⟨kind', known, literal⟩ := (admits_iff_of_slot place).mp own
      rw [one.slots, List.lookup_cons_self] at known
      cases known
      exact literal
    · have same : (first.map (tokenOf table)).length = (before.map table.token).length := by
        rw [List.length_map, earlier.length_eq]
      rw [words, List.map_append, List.map_cons, held_append same, held_cons, place,
        held_bare one.before_bare, held_bare one.after_bare]
      rfl

/-- A script with a push between the codes is admitted, word by word. -/
theorem OneSlot.admitted_of_encloses (one : OneSlot template table name kind before after)
    (readable : table.Readable) {data : Bytes} (takes : kind.Takes data) {script : Script}
    (encloses : Encloses before after data script) :
    ∃ ops, operations script = .ok ops ∧
      List.Forall₂ template.Admits (ops.map (tokenOf table)) (Text.words template.text) := by
  obtain ⟨part, opcode, spelt, rfl⟩ := encloses
  obtain ⟨want, place, words⟩ := one.words
  have codes_admitted : ∀ codes : Bytes, (∀ value ∈ codes, Bare table value) →
      List.Forall₂ (fun want part => ∃ opcode data, Spells part opcode data ∧ ∀ offset stop,
        template.Admits (tokenOf table ⟨offset, stop, opcode, data⟩) want)
        (codes.map table.token) (codes.map ([·])) := by
    intro codes bare
    rw [List.forall₂_map_left_iff, List.forall₂_map_right_iff, List.forall₂_same]
    exact fun value h =>
      ⟨value, none, .plain (bare value h).alone, fun _ _ => .word (bare value h).plain⟩
  have slot : ∃ opcode data, Spells part opcode data ∧ ∀ offset stop,
      template.Admits (tokenOf table ⟨offset, stop, opcode, data⟩) want :=
    ⟨opcode, some data, spelt, fun _ _ => .slot place
      (by rw [one.slots, List.lookup_cons_self])
      ((isLiteral_tokenOf_iff readable).mpr ⟨data, rfl, takes⟩)⟩
  obtain ⟨ops, placed, admitted⟩ := Script.exists_parts
    (r := fun want op => template.Admits (tokenOf table op) want)
    (List.rel_append (codes_admitted before one.before_bare)
      (.cons slot (codes_admitted after one.after_bare))) 0
  refine ⟨ops, ?_, ?_⟩
  · rw [← flatten_around]
    exact placed.operationsFrom
  · rw [words, List.forall₂_map_left_iff]
    exact admitted.flip

/-- **A script follows the template exactly if it is the codes with a push between them** of
something that the slot may stand for. The push may have any form. -/
theorem OneSlot.follows_iff (one : OneSlot template table name kind before after)
    (readable : table.Readable) {script : Script} {found : TemplateMatch} :
    template.extract script table = some found ↔
      ∃ data, kind.Takes data ∧ Encloses before after data script ∧
        found = ⟨template, [(name, literal data)]⟩ := by
  have pushes : ∀ found, template.extract script table = some found →
      ∃ data, kind.Takes data ∧ Encloses before after data script ∧
        found = ⟨template, [(name, literal data)]⟩ := by
    intro found follows
    obtain ⟨ops, split, admitted, -, rfl⟩ := (extract_eq_some_iff readable).mp follows
    obtain ⟨first, op, last, rfl, earlier, later, pushes, only⟩ := one.exists_of_admitted admitted
    obtain ⟨data, pushed, takes⟩ := (isLiteral_tokenOf_iff readable).mp pushes
    have spelt := Script.spells_slice split
    have whole := Script.flatten_slices split
    rw [List.forall_mem_append, List.forall_mem_cons] at spelt
    rw [List.map_append, List.map_cons, slices_of_admitted readable spelt.1 one.before_bare earlier,
      slices_of_admitted readable spelt.2.2 one.after_bare later, flatten_around] at whole
    refine ⟨data, takes, ⟨slice script op, op.opcode, pushed ▸ spelt.2.1, whole.symm⟩, ?_⟩
    rw [gather, only, tokenOf_of_takes pushed takes]
    rfl
  refine ⟨pushes found, ?_⟩
  rintro ⟨data, takes, encloses, rfl⟩
  obtain ⟨ops, split, admitted⟩ := one.admitted_of_encloses readable takes encloses
  obtain ⟨-, op, -, -, -, -, -, only⟩ := one.exists_of_admitted admitted
  have occurs : ∀ p ∈ template.slots, ∃ word,
      (p.1, word) ∈ held (ops.map (tokenOf table)) (Text.words template.text) := by
    rw [one.slots, List.forall_mem_singleton, only]
    exact ⟨_, List.mem_singleton_self _⟩
  have follows := (extract_eq_some_iff readable).mpr ⟨ops, split, admitted, occurs, rfl⟩
  obtain ⟨other, -, encloses', same⟩ := pushes _ follows
  rw [follows, same, encloses.unique encloses']

end LedgerScript.Template
