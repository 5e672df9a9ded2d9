import LedgerScript.Text.Blank

namespace LedgerScript.Text

/-- The text is a single word. -/
def IsWord (text : String) : Prop := text.toList ≠ [] ∧ ∀ c ∈ text.toList, isBlank c = false

instance (text : String) : Decidable (IsWord text) :=
  decidable_of_iff (text.toList ≠ [] ∧ (text.toList.all fun c => !isBlank c) = true)
    (by simp [IsWord])

theorem IsWord.append {a b : String} (ha : IsWord a) (hb : ∀ c ∈ b.toList, isBlank c = false) :
    IsWord (a ++ b) := by
  constructor
  · simp [ha.1]
  · intro c member
    rw [String.toList_append] at member
    cases List.mem_append.mp member with
    | inl first => exact ha.2 c first
    | inr second => exact hb c second

theorem consWord_of_ne_nil {word : List Char} (h : word ≠ []) (words : List (List Char)) :
    consWord word words = word :: words := if_neg h

theorem cut_of_blank {c : Char} (h : isBlank c = true) (text : List Char) :
    cut (c :: text) = ([], wordsOfChars text) := by
  simp [cut, h, wordsOfChars]

/-- A word and a blank in front of a text are one word more. -/
theorem wordsOfChars_cons {word : List Char} (some : word ≠ [])
    (solid : ∀ c ∈ word, isBlank c = false) {c : Char} (blank : isBlank c = true)
    (text : List Char) : wordsOfChars (word ++ c :: text) = word :: wordsOfChars text := by
  have parts : cut (word ++ c :: text) = (word, wordsOfChars text) := by
    rw [cut_word word _ solid, cut_of_blank blank, List.append_nil]
  rw [wordsOfChars, parts]
  exact consWord_of_ne_nil some _

theorem wordsOfChars_singleton {word : List Char} (some : word ≠ [])
    (solid : ∀ c ∈ word, isBlank c = false) : wordsOfChars word = [word] := by
  have parts : cut word = (word, []) := by simpa [cut] using cut_word word [] solid
  rw [wordsOfChars, parts]
  exact consWord_of_ne_nil some _

/-- **Words can be joined by spaces.** -/
theorem words_intercalate {tokens : List String} (each : ∀ token ∈ tokens, IsWord token) :
    words (" ".intercalate tokens) = tokens := by
  induction tokens with
  | nil => simp [words, wordsOfChars, cut, consWord]
  | cons token tokens ih =>
    obtain ⟨some, solid⟩ := each token List.mem_cons_self
    have others := ih fun t member => each t (List.mem_cons_of_mem token member)
    cases tokens with
    | nil => simp [words, wordsOfChars_singleton some solid]
    | cons next tokens =>
      have space : isBlank ' ' = true := by decide
      have text : (" ".intercalate (token :: next :: tokens)).toList =
          token.toList ++ ' ' :: (" ".intercalate (next :: tokens)).toList := by
        simp
      unfold words at others ⊢
      rw [text, wordsOfChars_cons some solid space, List.map_cons, others, String.ofList_toList]

end LedgerScript.Text
