/-!
Documents: JSON text as it is written.

A numeral keeps its digits, and a quoted text is kept only if its escapes spell one, so that parts
of a document which nobody reads are held to the grammar alone.
-/
namespace LedgerScript.Json

structure Numeral where
  negative : Bool
  whole : List Nat
  /-- The digits after the point. -/
  fraction : List Nat
  /-- The exponent, if one is written. -/
  exponent : Option Int
  /-- Whether there is a point or an exponent. -/
  isReal : Bool
deriving DecidableEq, Repr

/-- A quoted text, none if an escape is half of a pair. -/
abbrev Quoted := Option String

inductive Document where
  | null
  | bool (b : Bool)
  | number (n : Numeral)
  | text (t : Quoted)
  | list (items : List Document)
  | object (members : List (Quoted × Document))

namespace Document

def isSpace (c : Char) : Bool := c == ' ' || c == '\n' || c == '\r' || c == '\t'

def skipSpaces (cs : List Char) : List Char := cs.dropWhile isSpace

def digit? (c : Char) : Option Nat := if '0' ≤ c ∧ c ≤ '9' then some (c.toNat - 48) else none

/-- The longest run of digits in front, and what follows it. -/
def takeDigits : List Char → List Nat × List Char
  | [] => ([], [])
  | c :: cs =>
    match digit? c with
    | some d =>
      let (ds, rest) := takeDigits cs
      (d :: ds, rest)
    | none => ([], c :: cs)

/-- The number that decimal digits spell. -/
def ofDigits (ds : List Nat) : Nat := ds.foldl (fun n d => 10 * n + d) 0

/-- The whole part: a single zero, or digits that do not begin with one. -/
def takeWhole (cs : List Char) : Option (List Nat × List Char) :=
  match takeDigits cs with
  | ([], _) => none
  | (0 :: _ :: _, _) => none
  | (ds, rest) => some (ds, rest)

/-- The digits after a point, if there is a point. -/
def takeFraction : List Char → Option (Option (List Nat) × List Char)
  | '.' :: cs =>
    match takeDigits cs with
    | ([], _) => none
    | (ds, rest) => some (some ds, rest)
  | cs => some (none, cs)

def takeSign : List Char → Bool × List Char
  | '-' :: cs => (true, cs)
  | '+' :: cs => (false, cs)
  | cs => (false, cs)

/-- The exponent, if there is one. -/
def takeExponent (cs : List Char) : Option (Option Int × List Char) :=
  match cs with
  | [] => some (none, [])
  | c :: rest =>
    if c = 'e' ∨ c = 'E' then
      let (negative, rest) := takeSign rest
      match takeDigits rest with
      | ([], _) => none
      | (ds, rest) => some (some (if negative then -(ofDigits ds : Int) else ofDigits ds), rest)
    else some (none, cs)

def takeNumeral (negative : Bool) (cs : List Char) : Option (Numeral × List Char) := do
  let (whole, cs) ← takeWhole cs
  let (fraction, cs) ← takeFraction cs
  let (exponent, cs) ← takeExponent cs
  some (⟨negative, whole, fraction.getD [], exponent, fraction.isSome || exponent.isSome⟩, cs)

/-- A part of a quoted text: a character, or a code unit that was escaped by number. -/
inductive Piece where
  | char (c : Char)
  | unit (n : Nat)

def hexDigit? (c : Char) : Option Nat :=
  if '0' ≤ c ∧ c ≤ '9' then some (c.toNat - 48)
  else if 'a' ≤ c ∧ c ≤ 'f' then some (c.toNat - 87)
  else if 'A' ≤ c ∧ c ≤ 'F' then some (c.toNat - 55)
  else none

/-- The character after a backslash, the numbered escape apart. -/
def escaped? : Char → Option Char
  | '"' => some '"'
  | '\\' => some '\\'
  | '/' => some '/'
  | 'b' => some (Char.ofNat 8)
  | 'f' => some (Char.ofNat 12)
  | 'n' => some '\n'
  | 'r' => some '\r'
  | 't' => some '\t'
  | _ => none

def codeUnit? (a b c d : Char) : Option Nat := do
  let a ← hexDigit? a
  let b ← hexDigit? b
  let c ← hexDigit? c
  let d ← hexDigit? d
  some (4096 * a + 256 * b + 16 * c + d)

/-- The pieces up to the closing quote, and what follows it. -/
def takePieces : List Char → Option (List Piece × List Char)
  | '"' :: rest => some ([], rest)
  | '\\' :: 'u' :: a :: b :: c :: d :: rest => do
    let n ← codeUnit? a b c d
    let (pieces, rest) ← takePieces rest
    some (.unit n :: pieces, rest)
  | '\\' :: c :: rest => do
    let e ← escaped? c
    let (pieces, rest) ← takePieces rest
    some (.char e :: pieces, rest)
  | c :: rest =>
    if c.toNat < 32 ∨ c = '\\' then none
    else do
      let (pieces, rest) ← takePieces rest
      some (.char c :: pieces, rest)
  | [] => none

/-- The characters that pieces spell; a unit of the upper half of the pairs must be followed by one
of the lower half. -/
def joinPieces : List Piece → Option (List Char)
  | [] => some []
  | .char c :: rest => (joinPieces rest).map (c :: ·)
  | .unit n :: rest =>
    if n < 0xd800 ∨ 0xe000 ≤ n then (joinPieces rest).map (Char.ofNat n :: ·)
    else if 0xdc00 ≤ n then none
    else
      match rest with
      | .unit m :: rest =>
        if 0xdc00 ≤ m ∧ m < 0xe000 then
          (joinPieces rest).map
            (Char.ofNat (0x10000 + 0x400 * (n - 0xd800) + (m - 0xdc00)) :: ·)
        else none
      | _ => none

/-- A quoted text after its opening quote. -/
def takeQuoted (cs : List Char) : Option (Quoted × List Char) :=
  (takePieces cs).map fun (pieces, rest) => ((joinPieces pieces).map String.ofList, rest)

/-- What follows a word that must stand in front. -/
def expect (word cs : List Char) : Option (List Char) :=
  if cs.take word.length = word then some (cs.drop word.length) else none

mutual

/-- A document in front of a text, and what follows it. The fuel bounds the nesting. -/
def takeDocument : Nat → List Char → Option (Document × List Char)
  | 0, _ => none
  | fuel + 1, cs =>
    match skipSpaces cs with
    | 'n' :: rest => (expect "ull".toList rest).map (Document.null, ·)
    | 't' :: rest => (expect "rue".toList rest).map (Document.bool true, ·)
    | 'f' :: rest => (expect "alse".toList rest).map (Document.bool false, ·)
    | '"' :: rest => (takeQuoted rest).map fun (t, rest) => (.text t, rest)
    | '-' :: rest => (takeNumeral true rest).map fun (n, rest) => (.number n, rest)
    | '[' :: rest =>
      match skipSpaces rest with
      | ']' :: rest => some (.list [], rest)
      | rest => (takeItems fuel rest).map fun (items, rest) => (.list items, rest)
    | '{' :: rest =>
      match skipSpaces rest with
      | '}' :: rest => some (.object [], rest)
      | rest => (takeMembers fuel rest).map fun (members, rest) => (.object members, rest)
    | rest => (takeNumeral false rest).map fun (n, rest) => (.number n, rest)

/-- The items of a list up to its end. -/
def takeItems : Nat → List Char → Option (List Document × List Char)
  | 0, _ => none
  | fuel + 1, cs => do
    let (item, rest) ← takeDocument fuel cs
    match skipSpaces rest with
    | ',' :: rest =>
      let (items, rest) ← takeItems fuel rest
      some (item :: items, rest)
    | ']' :: rest => some ([item], rest)
    | _ => none

/-- The members of an object up to its end. -/
def takeMembers : Nat → List Char → Option (List (Quoted × Document) × List Char)
  | 0, _ => none
  | fuel + 1, cs => do
    let key ← expect ['"'] (skipSpaces cs)
    let (key, rest) ← takeQuoted key
    let rest ← expect [':'] (skipSpaces rest)
    let (value, rest) ← takeDocument fuel rest
    match skipSpaces rest with
    | ',' :: rest =>
      let (members, rest) ← takeMembers fuel rest
      some ((key, value) :: members, rest)
    | '}' :: rest => some ([(key, value)], rest)
    | _ => none

end

/-- The document that a whole text is. -/
def parse (text : String) : Option Document := do
  let cs := text.toList
  let (document, rest) ← takeDocument (2 * cs.length + 2) cs
  if skipSpaces rest = [] then some document else none

end Document
end LedgerScript.Json
