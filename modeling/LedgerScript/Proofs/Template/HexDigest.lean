import LedgerScript.Proofs.Template.Address
import Mathlib.Data.List.Induction

namespace LedgerScript

namespace Hex

/-- The character is a digit, in either case. -/
def IsDigit (c : Char) : Prop := c ∈ "0123456789abcdefABCDEF".toList

instance (c : Char) : Decidable (IsDigit c) := inferInstanceAs (Decidable (_ ∈ _))

/-- What the digits all pass, tried one after another, each digit passes. -/
theorem IsDigit.of_all {p : Char → Prop} [DecidablePred p] {c : Char} (h : IsDigit c)
    (all : "0123456789abcdefABCDEF".toList.all (p ·) = true) : p c :=
  of_decide_eq_true (List.all_eq_true.mp all c h)

theorem IsDigit.ascii {c : Char} (h : IsDigit c) : c.toNat < 128 :=
  h.of_all (p := fun c => c.toNat < 128) (by decide +kernel)

theorem IsDigit.exists_value {c : Char} (h : IsDigit c) :
    ∃ n : Fin 16, value? (UInt8.ofNat c.toNat) = some (UInt8.ofNat n) ∧
      digit (UInt8.ofNat n) = c.toLower := by
  refine h.of_all (p := fun c => ∃ n : Fin 16, value? (UInt8.ofNat c.toNat) = some (UInt8.ofNat n) ∧
    digit (UInt8.ofNat n) = c.toLower) ?_
  decide +kernel

theorem digits_join (h l : Fin 16) :
    digits (16 * UInt8.ofNat h + UInt8.ofNat l) =
      [digit (UInt8.ofNat h), digit (UInt8.ofNat l)] := by
  revert h l
  decide +kernel

theorem decodePairs_of_digits {text : List Char} (even : text.length % 2 = 0)
    (hex : ∀ c ∈ text, IsDigit c) (position : Nat) :
    ∃ bytes, decodePairs position (text.map fun c => UInt8.ofNat c.toNat) = .ok bytes ∧
      encodeChars bytes = text.map Char.toLower := by
  induction text using List.twoStepInduction generalizing position with
  | nil => exact ⟨[], rfl, rfl⟩
  | singleton c => cases even
  | cons_cons hi lo text ih _ =>
    obtain ⟨h, high, upper⟩ := (hex hi (by simp)).exists_value
    obtain ⟨l, low, lower⟩ := (hex lo (by simp)).exists_value
    have rest : text.length % 2 = 0 := by
      rw [List.length_cons, List.length_cons] at even
      omega
    have others : ∀ c ∈ text, IsDigit c := fun c member => hex c (by simp [member])
    obtain ⟨bytes, read, written⟩ := ih rest others (position + 2)
    refine ⟨(16 * UInt8.ofNat h + UInt8.ofNat l) :: bytes, ?_, ?_⟩
    · simp only [List.map_cons, decodePairs, high, low, read]
      rfl
    · rw [encodeChars, List.flatMap_cons, digits_join, upper, lower]
      exact congrArg (_ :: _ :: ·) written

/-- **Digits of either case are read**, and written again in lower case. -/
theorem decode_of_digits {text : String} (even : text.length % 2 = 0)
    (hex : ∀ c ∈ text.toList, IsDigit c) :
    ∃ bytes, decode text = .ok bytes ∧ encode bytes = text.toLower ∧
      2 * bytes.length = text.length := by
  have ascii : Text.utf8 text = text.toList.map fun c => UInt8.ofNat c.toNat :=
    Text.utf8OfChars_ascii _ fun c member => (hex c member).ascii
  have length : (Text.utf8 text).length = text.length := by
    rw [ascii, List.length_map, String.length_toList]
  obtain ⟨bytes, read, written⟩ :=
    decodePairs_of_digits (by rwa [String.length_toList]) hex 0
  have decoded : decode text = .ok bytes := by
    rw [decode, decodeUtf8, length, if_neg (by omega), ascii, read]
  refine ⟨bytes, decoded, ?_, (length_of_decode decoded).symm.trans length⟩
  calc encode bytes = String.ofList (text.toList.map Char.toLower) := congrArg String.ofList written
    _ = text.map Char.toLower := by rw [← String.toList_map, String.ofList_toList]

end Hex

namespace Template

open Script (after? literalMark)

/-- The mark of a literal has a letter that is no digit. -/
theorem digitsOf_digits {digits : String} (hex : ∀ c ∈ digits.toList, Hex.IsDigit c) :
    digitsOf digits = digits := by
  have unmarked : after? literalMark digits.toList = none := by
    rw [Script.after?_eq_none_iff]
    intro begins
    have letter : Hex.IsDigit 'x' := hex 'x' (begins.subset (by decide +kernel))
    revert letter
    decide +kernel
  rw [digitsOf, unmarked, Option.getD_none, String.ofList_toList]

/-- **40 hexadecimal digits are read as a digest**, with or without the mark of a literal. -/
theorem decodeAddress_hexDigits {digits value : String} (forty : digits.length = 40)
    (hex : ∀ c ∈ digits.toList, Hex.IsDigit c) (spelt : value = digits ∨ value = "0x" ++ digits) :
    ∃ hash, decodeAddress value = some hash ∧ literal hash = "0x" ++ digits.toLower := by
  obtain ⟨hash, decoded, written, length⟩ := Hex.decode_of_digits (by omega) hex
  have long : 35 < value.length ∧ digitsOf value = digits := by
    rcases spelt with rfl | rfl
    · exact ⟨by omega, digitsOf_digits hex⟩
    · rw [String.length_append]
      exact ⟨by omega, digitsOf_mark digits⟩
  refine ⟨hash, ?_, by rw [literal, written]⟩
  rw [decodeAddress_of_long long.1, long.2]
  exact hashOfDigits?_eq_some_iff.mpr ⟨decoded, by omega⟩

theorem fill_eq (template : Template) (values : List (String × String)) :
    template.fill values =
      ((Text.words template.text).mapM (template.fillWord values)).map (" ".intercalate ·) := by
  unfold fill
  cases (Text.words template.text).mapM (template.fillWord values) <;> rfl

/-- **A template is filled with hexadecimal digits as they are.** Where 40 of them are given for an
address, with or without the mark of a literal, the literal of these digits in lower case is put for
each placeholder of that name, and every other word is what it is without. -/
theorem fill_hexDigits {template : Template} {values : List (String × String)}
    {name digits value : String} (forty : digits.length = 40)
    (hex : ∀ c ∈ digits.toList, Hex.IsDigit c) (slot : template.slots.lookup name = some .address)
    (spelt : value = digits ∨ value = "0x" ++ digits) (given : values.lookup name = some value) :
    template.fill values =
      ((Text.words template.text).mapM fun word =>
        if placeholder? word = some name then .ok ("0x" ++ digits.toLower)
        else template.fillWord values word).map (" ".intercalate ·) := by
  obtain ⟨hash, decoded, written⟩ := decodeAddress_hexDigits forty hex spelt
  have filled : template.fillWord values = fun word =>
      if placeholder? word = some name then .ok ("0x" ++ digits.toLower)
      else template.fillWord values word := by
    funext word
    split
    · next place => simp only [fillWord, place, slot, given, literalOf, decoded, written]
    · rfl
  rw [fill_eq, ← filled]

/-- Two places for an address and one for a text. -/
def labelled : Template :=
  ⟨"Labelled", "<a> OP_DUP <label> <a>", [("a", .address), ("label", .text)]⟩

/-- Digits of either case, all of them in the alphabet of addresses, and two that stand there for
whole bytes in front. -/
def unclear : String := "11aAbBcCdDeEfF2345678923456789ABCDEFabcd"

theorem fill_hexDigits_unclear :
    let literal := "0x11aabbccddeeff2345678923456789abcdefabcd"
    unclear.length = 40 ∧ (∀ c ∈ unclear.toList, Hex.IsDigit c) ∧
    labelled.slots.lookup "a" = some .address ∧ (Base58.decode unclear.toList).isSome = true ∧
    ∀ value, value = unclear ∨ value = "0x" ++ unclear →
      labelled.fill [("a", value), ("label", "hi")] =
        .ok (literal ++ " OP_DUP 0x6869 " ++ literal) := by
  intro literal
  have forty : unclear.length = 40 := by decide +kernel
  have all : unclear.toList.all (Hex.IsDigit ·) = true := by decide +kernel
  have hex : ∀ c ∈ unclear.toList, Hex.IsDigit c := by simpa using all
  have slot : labelled.slots.lookup "a" = some .address := by decide
  refine ⟨forty, hex, slot, by decide +kernel, fun value spelt => ?_⟩
  rw [fill_hexDigits forty hex slot spelt rfl]
  rcases spelt with rfl | rfl <;> decide +kernel

end Template
end LedgerScript
