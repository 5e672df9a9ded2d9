import LedgerScript.Text.Utf8

/-!
Hexadecimal text: two digits a byte, written in lower case, read in either case.

Text is measured in the bytes of its UTF-8 form. A text of odd length is refused as a whole;
otherwise the first byte that is no digit is reported with its position.
-/
namespace LedgerScript.Hex

/-- Why a text is no hexadecimal byte string. -/
inductive Fault where
  | oddLength
  | badDigit (byte : UInt8) (position : Nat)
deriving DecidableEq, Repr

/-- A sixteenth as its lower-case digit. -/
def digit (n : UInt8) : Char :=
  if n < 10 then Char.ofNat (48 + n.toNat) else Char.ofNat (87 + n.toNat)

/-- The value of a digit, given as its character code. -/
def value? (c : UInt8) : Option UInt8 :=
  if 48 ≤ c ∧ c ≤ 57 then some (c - 48)
  else if 97 ≤ c ∧ c ≤ 102 then some (c - 87)
  else if 65 ≤ c ∧ c ≤ 70 then some (c - 55)
  else none

def digits (b : UInt8) : List Char := [digit (b / 16), digit (b % 16)]

def encodeChars (bytes : Bytes) : List Char := bytes.flatMap digits

def encode (bytes : Bytes) : String := String.ofList (encodeChars bytes)

/-- Reads pairs of digits, the first of them at the given position. -/
def decodePairs (position : Nat) : Bytes → Except Fault Bytes
  | [] => .ok []
  | [_] => .error .oddLength
  | hi :: lo :: rest =>
    match value? hi, value? lo with
    | none, _ => .error (.badDigit hi position)
    | _, none => .error (.badDigit lo (position + 1))
    | some h, some l => (decodePairs (position + 2) rest).map ((16 * h + l) :: ·)

def decodeUtf8 (text : Bytes) : Except Fault Bytes :=
  if text.length % 2 = 1 then .error .oddLength else decodePairs 0 text

def decode (text : String) : Except Fault Bytes := decodeUtf8 (Text.utf8 text)

/-- Whether a Latin-1 character is shown as itself: control characters, the no-break space and
the soft hyphen are not. -/
def isShown (c : UInt8) : Bool :=
  (32 ≤ c && c < 127) || (160 < c && c != 173)

/-- A code point in hexadecimal, without leading zeros. -/
def codePoint (c : UInt8) : String :=
  if c < 16 then String.singleton (digit c) else encode [c]

/-- A Latin-1 character as it stands between single quotes. -/
def quoted (c : UInt8) : String :=
  if c = 39 then "\\'"
  else if c = 92 then "\\\\"
  else if c = 9 then "\\t"
  else if c = 10 then "\\n"
  else if c = 13 then "\\r"
  else if c = 0 then "\\0"
  else if isShown c then String.singleton (Char.ofNat c.toNat)
  else "\\u\x7b" ++ codePoint c ++ "\x7d"

/-- A byte that is no digit is shown as the Latin-1 character of its value. -/
def Fault.message : Fault → String
  | .oddLength => "Odd number of digits"
  | .badDigit byte position =>
    "Invalid character '" ++ quoted byte ++ "' at position " ++ toString position

theorem digit_ascii (n : UInt8) (h : n < 16) : (digit n).toNat < 128 := by
  revert n; exact Bytes.forall_byte (by decide +kernel)

theorem value?_digit (n : UInt8) (h : n < 16) :
    value? (UInt8.ofNat (digit n).toNat) = some n := by
  revert n; exact Bytes.forall_byte (by decide +kernel)

theorem high_lt (b : UInt8) : b / 16 < 16 := by
  revert b; exact Bytes.forall_byte (by decide +kernel)

theorem low_lt (b : UInt8) : b % 16 < 16 := by
  revert b; exact Bytes.forall_byte (by decide +kernel)

theorem join (b : UInt8) : 16 * (b / 16) + b % 16 = b := by
  revert b; exact Bytes.forall_byte (by decide +kernel)

theorem encodeChars_ascii (bytes : Bytes) : ∀ c ∈ encodeChars bytes, c.toNat < 128 := by
  simp only [encodeChars, List.mem_flatMap, digits, List.mem_cons, List.not_mem_nil, or_false]
  rintro c ⟨b, -, rfl | rfl⟩
  · exact digit_ascii _ (high_lt b)
  · exact digit_ascii _ (low_lt b)

theorem length_encodeChars (bytes : Bytes) : (encodeChars bytes).length = 2 * bytes.length := by
  induction bytes with
  | nil => rfl
  | cons b bytes ih =>
    simp only [encodeChars, List.flatMap_cons, List.length_append] at ih ⊢
    simp only [ih, digits, List.length_cons, List.length_nil]
    omega

theorem decodePairs_digits (bytes : Bytes) (position : Nat) :
    decodePairs position ((encodeChars bytes).map fun c => UInt8.ofNat c.toNat) = .ok bytes := by
  induction bytes generalizing position with
  | nil => rfl
  | cons b bytes ih =>
    simp only [encodeChars, List.flatMap_cons, digits, List.cons_append, List.nil_append,
      List.map_cons] at ih ⊢
    simp only [decodePairs, value?_digit _ (high_lt b), value?_digit _ (low_lt b), ih, join]
    rfl

theorem decode_encode (bytes : Bytes) : decode (encode bytes) = .ok bytes := by
  simp only [decode, encode, Text.utf8, String.toList_ofList,
    Text.utf8OfChars_ascii _ (encodeChars_ascii bytes), decodeUtf8, List.length_map,
    length_encodeChars, Nat.mul_mod_right, decodePairs_digits]
  rfl

end LedgerScript.Hex
