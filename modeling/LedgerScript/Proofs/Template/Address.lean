import LedgerScript.Proofs.Fallible
import LedgerScript.Proofs.Script.Token
import LedgerScript.Proofs.Text.Base58
import LedgerScript.Template

namespace LedgerScript

namespace Hex

theorem length_of_decodePairs {position : Nat} {text bytes : Bytes}
    (read : decodePairs position text = .ok bytes) : text.length = 2 * bytes.length := by
  fun_induction decodePairs position text generalizing bytes with
  | case1 =>
    cases read
    rfl
  | case2 => cases read
  | case3 => cases read
  | case4 => cases read
  | case5 position hi lo rest h l high low ih =>
    obtain ⟨others, tail, rfl⟩ := Fallible.map_eq_ok_iff.mp read
    have pairs := ih tail
    simp only [List.length_cons]
    omega

/-- **Two digits are one byte.** -/
theorem length_of_decode {text : String} {bytes : Bytes} (read : decode text = .ok bytes) :
    (Text.utf8 text).length = 2 * bytes.length := by
  unfold decode decodeUtf8 at read
  split at read
  · cases read
  · exact length_of_decodePairs read

end Hex

namespace Template

open Script (after? literalMark push)

theorem hashOfDigits?_eq_some_iff {digits : String} {hash : Bytes} :
    hashOfDigits? digits = some hash ↔ Hex.decode digits = .ok hash ∧ hash.length = 20 := by
  unfold hashOfDigits?
  cases read : Hex.decode digits with
  | error fault => simp [Except.toOption]
  | ok bytes =>
    have length := Hex.length_of_decode read
    have size : (Text.utf8 digits).length = 40 ↔ bytes.length = 20 := by omega
    simp only [size, Except.toOption, Except.ok.injEq]
    constructor
    · intro found
      split at found
      · next whole =>
        cases found
        exact ⟨rfl, whole⟩
      · cases found
    · rintro ⟨rfl, whole⟩
      exact if_pos whole

/-- **An address stands for 20 bytes.** -/
theorem length_of_decodeAddress {value : String} {hash : Bytes}
    (decoded : decodeAddress value = some hash) : hash.length = 20 := by
  unfold decodeAddress at decoded
  split at decoded
  · next version rest _ =>
    split at decoded
    · next whole =>
      cases decoded
      exact Nat.succ.inj whole
    · exact (hashOfDigits?_eq_some_iff.mp decoded).2
  · exact (hashOfDigits?_eq_some_iff.mp decoded).2

/-- **A long text is no address with a checksum.** It stands for more than the 21 bytes of a version
and a digest. -/
theorem decodeAddress_of_long {value : String} (long : 35 < value.length) :
    decodeAddress value = hashOfDigits? (digitsOf value) := by
  unfold decodeAddress
  split
  · next version hash checked =>
    have many := Base58.lt_length_of_decodeChecked checked long
    rw [if_neg (by omega)]
  · rfl

theorem after?_mark (digits : String) :
    after? literalMark ("0x" ++ digits).toList = some digits.toList := by
  rw [String.toList_append]
  exact Script.after?_append _ _

theorem digitsOf_mark (digits : String) : digitsOf ("0x" ++ digits) = digits := by
  rw [digitsOf, after?_mark, Option.getD_some, String.ofList_toList]

/-- **A literal of 20 bytes is read as these bytes.** -/
theorem decodeAddress_literal {hash : Bytes} (whole : hash.length = 20) :
    decodeAddress (literal hash) = some hash := by
  have length : (Hex.encode hash).length = 40 := by
    rw [Hex.encode, String.length_ofList, Hex.length_encodeChars, whole]
  have long : 35 < (literal hash).length := by
    rw [literal, String.length_append]
    omega
  rw [decodeAddress_of_long long, literal, digitsOf_mark]
  exact hashOfDigits?_eq_some_iff.mpr ⟨Hex.decode_encode hash, whole⟩

/-- 20 bytes are pushed by a code of their own. -/
theorem push_of_hash {hash : Bytes} (whole : hash.length = 20) : push hash = 20 :: hash := by
  rw [push, Script.pushHead, whole]
  rfl

end Template
end LedgerScript
