import LedgerScript.Bytes

namespace LedgerScript.Text

def utf8OfChars (chars : List Char) : Bytes := chars.flatMap String.utf8EncodeChar

def utf8 (text : String) : Bytes := utf8OfChars text.toList

theorem utf8EncodeChar_ascii (c : Char) (h : c.toNat < 128) :
    String.utf8EncodeChar c = [UInt8.ofNat c.toNat] := by
  have small : c.val.toNat ≤ 0x7f := Nat.le_of_lt_succ h
  unfold String.utf8EncodeChar
  exact if_pos small

theorem utf8OfChars_ascii (chars : List Char) (h : ∀ c ∈ chars, c.toNat < 128) :
    utf8OfChars chars = chars.map fun c => UInt8.ofNat c.toNat := by
  induction chars with
  | nil => rfl
  | cons c chars ih =>
    simp only [utf8OfChars, List.flatMap_cons, List.map_cons] at *
    rw [utf8EncodeChar_ascii c (h c List.mem_cons_self),
      ih (fun d hd => h d (List.mem_cons_of_mem _ hd))]
    rfl

end LedgerScript.Text
