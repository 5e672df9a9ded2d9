/-!
Blank characters, trimming, and the words of a text.

A character is blank when it has the Unicode property White_Space. The words of a text are its
longest runs of characters that are not blank.
-/
namespace LedgerScript.Text

/-- The Unicode property White_Space. -/
def isBlank (c : Char) : Bool :=
  let n := c.toNat
  (9 ≤ n && n ≤ 13) || n == 0x20 || n == 0x85 || n == 0xa0 || n == 0x1680
    || (0x2000 ≤ n && n ≤ 0x200a) || n == 0x2028 || n == 0x2029 || n == 0x202f
    || n == 0x205f || n == 0x3000

/-- A text without the blanks at its two ends. -/
def trimChars (text : List Char) : List Char :=
  ((text.dropWhile isBlank).reverse.dropWhile isBlank).reverse

def trim (text : String) : String := String.ofList (trimChars text.toList)

/-- A word put before other words; the empty word is no word. -/
def consWord (word : List Char) (words : List (List Char)) : List (List Char) :=
  if word = [] then words else word :: words

/-- The characters before the first blank, and the words after it. -/
def cut : List Char → List Char × List (List Char)
  | [] => ([], [])
  | c :: rest =>
    let (word, words) := cut rest
    if isBlank c then ([], consWord word words) else (c :: word, words)

def wordsOfChars (text : List Char) : List (List Char) := consWord (cut text).1 (cut text).2

/-- The words of a text, in order. -/
def words (text : String) : List String := (wordsOfChars text.toList).map String.ofList

theorem cut_word (word : List Char) (rest : List Char) (h : ∀ c ∈ word, isBlank c = false) :
    cut (word ++ rest) = (word ++ (cut rest).1, (cut rest).2) := by
  induction word with
  | nil => rfl
  | cons c word ih =>
    simp only [List.cons_append, cut, ih (fun d hd => h d (List.mem_cons_of_mem _ hd)),
      h c List.mem_cons_self]
    rfl

end LedgerScript.Text
