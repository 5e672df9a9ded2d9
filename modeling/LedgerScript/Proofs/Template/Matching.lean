import LedgerScript.Proofs.Script.Rendering
import LedgerScript.Proofs.Template.Address

namespace LedgerScript

open Script (after? after?_eq_none_iff literalMark operations tokenOf)

/-- What a placeholder may stand for: a digest, or any bytes but none. -/
def SlotKind.Takes : SlotKind → Bytes → Prop
  | .address, data => data.length = 20
  | .text, data => data ≠ []

namespace Template

variable {template : Template} {table : Table}

/-- A word may stand where the template has another: it is the same one, or a literal of the kind
that the placeholder is for. -/
inductive Admits (template : Template) : String → String → Prop
  | word {word : String} (plain : placeholder? word = none) : Admits template word word
  | slot {word want name : String} {kind : SlotKind} (place : placeholder? want = some name)
      (known : template.slots.lookup name = some kind) (literal : isLiteral word kind = true) :
      Admits template word want

section Admits

variable {word want name : String}

theorem admits_iff_of_word (plain : placeholder? want = none) :
    template.Admits word want ↔ word = want := by
  constructor
  · rintro (_ | ⟨place, -, -⟩)
    · rfl
    · cases plain.symm.trans place
  · rintro rfl
    exact .word plain

theorem admits_iff_of_slot (place : placeholder? want = some name) :
    template.Admits word want ↔
      ∃ kind, template.slots.lookup name = some kind ∧ isLiteral word kind = true := by
  constructor
  · rintro (plain | ⟨place', known, literal⟩)
    · cases plain.symm.trans place
    · cases place'.symm.trans place
      exact ⟨_, known, literal⟩
  · rintro ⟨kind, known, literal⟩
    exact .slot place known literal

end Admits

/-- What stands at the placeholders, by their names. -/
def held {α : Type} (xs : List α) (wants : List String) : List (String × α) :=
  (xs.zip wants).filterMap fun p => (placeholder? p.2).map (·, p.1)

section Held

variable {α β : Type} {xs ys : List α} {wants others : List String} {name : String} {x : α}

theorem held_cons (x : α) (xs : List α) (want : String) (wants : List String) :
    held (x :: xs) (want :: wants) =
      match placeholder? want with
      | some name => (name, x) :: held xs wants
      | none => held xs wants := by
  rw [held, List.zip_cons_cons, List.filterMap_cons]
  cases placeholder? want <;> rfl

theorem held_append (same : xs.length = wants.length) :
    held (xs ++ ys) (wants ++ others) = held xs wants ++ held ys others := by
  rw [held, List.zip_append same, List.filterMap_append, ← held, ← held]

theorem held_of_plain (plain : ∀ want ∈ wants, placeholder? want = none) : held xs wants = [] := by
  rw [held, List.filterMap_eq_nil_iff]
  intro p member
  rw [plain p.2 (List.of_mem_zip member).2, Option.map_none]

theorem mem_held :
    (name, x) ∈ held xs wants ↔
      ∃ want, (x, want) ∈ xs.zip wants ∧ placeholder? want = some name := by
  simp [held, Option.map_eq_some_iff]

theorem held_map (f : α → β) :
    held (xs.map f) wants = (held xs wants).map (Prod.map id f) := by
  simp only [held, List.zip_map_left, List.filterMap_map, List.map_filterMap]
  congr 1
  funext p
  simp [Function.comp_def]

end Held

/-- **Words match exactly if each is admitted**, and what is found are the words at the
placeholders, put one after another. -/
theorem matchWords_eq_some_iff {words wants : List String} {found result : List (String × String)} :
    template.matchWords found words wants = some result ↔
      List.Forall₂ template.Admits words wants ∧
        result = (held words wants).foldl (fun found p => Assoc.put p.1 p.2 found) found := by
  induction words generalizing wants found with
  | nil =>
    cases wants with
    | nil => simp [matchWords, held, eq_comm]
    | cons want wants => simp [matchWords]
  | cons word words ih =>
    cases wants with
    | nil => simp [matchWords]
    | cons want wants =>
      rw [matchWords, List.forall₂_cons, held_cons]
      cases place : placeholder? want with
      | none =>
        simp only [admits_iff_of_word place, and_assoc]
        split
        · next same => simp [ih, same]
        · next other => simp [other]
      | some name =>
        simp only [admits_iff_of_slot place]
        cases known : template.slots.lookup name with
        | none => simp
        | some kind =>
          dsimp only
          split
          · next literal => simp [ih, literal]
          · next other => simp [other]

/-- The words at the placeholders, put one after another. -/
def gather (words wants : List String) : List (String × String) :=
  (held words wants).foldl (fun found p => Assoc.put p.1 p.2 found) []

/-- The last word of a name is the one that is found. -/
theorem lookup_gather (words wants : List String) (name : String) :
    (gather words wants).lookup name = (held words wants).reverse.lookup name := by
  rw [gather, Assoc.lookup_foldl_put, List.lookup_nil, Option.or_none]

theorem isSome_lookup_gather_iff {words wants : List String} {name : String} :
    ((gather words wants).lookup name).isSome = true ↔ ∃ word, (name, word) ∈ held words wants := by
  simp only [lookup_gather, Assoc.isSome_lookup_iff, List.mem_reverse]

/-- No word for a code is a literal. -/
theorem after?_token (readable : table.Readable) (value : UInt8) :
    after? literalMark (table.token value).toList = none := by
  unfold Table.token
  cases named : table.textName? value with
  | none =>
    rw [Option.getD_none, String.toList_append]
    rfl
  | some name =>
    have resolved : table.valueOf? name = some value := Table.valueOf?_textName? named
    exact after?_eq_none_iff.mpr (Table.readable_of_valueOf? readable resolved).2.1

theorem isLiteral_literal_iff {data : Bytes} {kind : SlotKind} :
    isLiteral (literal data) kind = true ↔ (kind = .address → data.length = 20) := by
  have size : (Text.utf8 (Hex.encode data)).length = 2 * data.length :=
    Hex.length_of_decode (Hex.decode_encode data)
  unfold isLiteral
  rw [literal, after?_mark]
  cases kind with
  | address =>
    simp only [String.ofList_toList, Hex.decode_encode, Except.toOption, Option.isSome_some,
      Bool.and_true, beq_iff_eq, forall_const]
    rw [← Text.utf8, size]
    omega
  | text => simp [Hex.decode_encode, Except.toOption]

/-- **The word of an operation is a literal exactly if the operation pushes what the placeholder may
stand for.** -/
theorem isLiteral_tokenOf_iff (readable : table.Readable) {op : Operation} {kind : SlotKind} :
    isLiteral (tokenOf table op) kind = true ↔ ∃ data, op.data = some data ∧ kind.Takes data := by
  have code : isLiteral (table.token op.opcode) kind = false := by
    rw [isLiteral, after?_token readable]
  have nothing : ¬ kind.Takes [] := by cases kind <;> simp [SlotKind.Takes]
  unfold tokenOf
  obtain ⟨offset, stop, opcode, _ | _ | ⟨b, rest⟩⟩ := op
  · simp [code]
  · simp [code, nothing]
  · simp only [Option.some.injEq, exists_eq_left']
    rw [← literal, isLiteral_literal_iff]
    cases kind <;> simp [SlotKind.Takes]

theorem tokenOf_of_takes {op : Operation} {data : Bytes} {kind : SlotKind}
    (pushed : op.data = some data) (takes : kind.Takes data) : tokenOf table op = literal data := by
  cases data with
  | nil => cases kind <;> simp [SlotKind.Takes] at takes
  | cons b rest => rw [tokenOf, pushed, literal]

/-- A script follows a template when the words of its operations match, and each slot occurs. -/
theorem extract_eq_of_split (readable : table.Readable) {script : Script} {ops : List Operation}
    (split : operations script = .ok ops) :
    template.extract script table =
      (template.matchWords [] (ops.map (tokenOf table))
          (Text.words template.text)).bind fun found =>
        if template.slots.all fun (name, _) => (found.lookup name).isSome then
          some ⟨template, found⟩
        else none := by
  rw [← Script.words_tokens readable ops]
  simp only [extract, Script.toText_eq split]
  rfl

theorem extract_of_unsplit {script : Script} {e : Error} (unsplit : operations script = .error e) :
    template.extract script table = none := by
  simp only [extract, Script.toText, unsplit]
  rfl

/-- **A script follows a template exactly if the words of its operations are admitted**, each where
it stands, and there is a placeholder for each slot. -/
theorem extract_eq_some_iff (readable : table.Readable) {script : Script} {found : TemplateMatch} :
    template.extract script table = some found ↔ ∃ ops, operations script = .ok ops ∧
      List.Forall₂ template.Admits (ops.map (tokenOf table)) (Text.words template.text) ∧
      (∀ p ∈ template.slots, ∃ word,
        (p.1, word) ∈ held (ops.map (tokenOf table)) (Text.words template.text)) ∧
      found = ⟨template, gather (ops.map (tokenOf table)) (Text.words template.text)⟩ := by
  cases split : operations script with
  | error e => simp [extract_of_unsplit split]
  | ok ops =>
    rw [extract_eq_of_split readable split, Option.bind_eq_some_iff]
    simp only [Except.ok.injEq, exists_eq_left', Option.ite_none_right_eq_some, List.all_eq_true,
      Option.some.injEq, ← isSome_lookup_gather_iff]
    constructor
    · rintro ⟨literals, matched, occurs, rfl⟩
      obtain ⟨admitted, rfl⟩ := matchWords_eq_some_iff.mp matched
      exact ⟨admitted, occurs, rfl⟩
    · rintro ⟨admitted, occurs, rfl⟩
      exact ⟨_, matchWords_eq_some_iff.mpr ⟨admitted, rfl⟩, occurs, rfl⟩

/-- **A template is filled word by word**, and the script consists of what the words stand for. -/
theorem toScript_of_words {values : List (String × String)} {words : List String}
    {parts : List Bytes}
    (filled : List.Forall₂ (fun want word => template.fillWord values want = .ok word)
      (Text.words template.text) words)
    (each : List.Forall₂ (fun word part => Text.IsWord word ∧ Script.ofToken table word = .ok part)
      words parts) : template.toScript values table = .ok parts.flatten := by
  have text : template.fill values = .ok (" ".intercalate words) :=
    Fallible.bind_eq_ok_iff.mpr ⟨words, Fallible.mapM_eq_ok_iff.mpr filled, rfl⟩
  have solid : ∀ word ∈ words, Text.IsWord word := by
    intro word member
    obtain ⟨part, -, isWord, -⟩ := Fallible.exists_of_forall₂ each word member
    exact isWord
  have read : words.mapM (Script.ofToken table) = .ok parts :=
    Fallible.mapM_eq_ok_iff.mpr (each.imp fun _ _ h => h.2)
  refine Fallible.bind_eq_ok_iff.mpr ⟨_, text, ?_⟩
  rw [Script.ofText, Text.words_intercalate solid, read]
  rfl

end Template
end LedgerScript
