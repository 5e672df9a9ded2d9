import LedgerScript.Assoc
import LedgerScript.Decimal.Shortest
import LedgerScript.Json.Document
import LedgerScript.Text.Hex

/-!
JSON values: what a document means, and how a value is written.

Whole numerals from -2⁶³ to 2⁶⁴ - 1 are integers, save for a negative zero; all others are double
precision numbers. Of members with one key the last counts.
-/
namespace LedgerScript

inductive Json where
  | null
  | bool (b : Bool)
  | integer (n : Int)
  | real (x : Binary64)
  | text (t : String)
  | list (items : List Json)
  | object (members : List (String × Json))

namespace Json

/-- Digits taken into a significand of 64 bits; the exponent tells the place of its last digit. -/
structure Significand where
  value : Nat
  exponent : Int
  /-- Whether a digit has been left out. -/
  full : Bool

/-- Takes a digit before the point; one that does not fit only moves the place. -/
def Significand.takeWhole (s : Significand) (d : Nat) : Significand :=
  if s.full || decide (UInt64.size ≤ 10 * s.value + d) then
    { s with exponent := s.exponent + 1, full := true }
  else { s with value := 10 * s.value + d }

/-- Takes a digit after the point; once one does not fit, none is taken. -/
def Significand.takeFraction (s : Significand) (d : Nat) : Significand :=
  if s.full || decide (UInt64.size ≤ 10 * s.value + d) then { s with full := true }
  else { s with value := 10 * s.value + d, exponent := s.exponent - 1 }

/-- The number that a numeral is read as in double precision, if it is finite. -/
def realOf (n : Numeral) : Option Binary64 :=
  let whole := n.whole.foldl Significand.takeWhole ⟨0, 0, false⟩
  let s := n.fraction.foldl Significand.takeFraction { whole with full := false }
  (Magnitude.ofDecimal s.value (s.exponent + n.exponent.getD 0)).map (⟨n.negative, ·⟩)

/-- The value of a numeral, if it is in range. -/
def ofNumeral (n : Numeral) : Option Json :=
  let whole := Document.ofDigits n.whole
  if n.isReal then (realOf n).map real
  else if n.negative then
    if whole ≠ 0 ∧ Int64.minValue.toInt ≤ -whole then some (integer (-whole))
    else (realOf n).map real
  else if whole < UInt64.size then some (integer whole) else (realOf n).map real

mutual

/-- What a document means, if all its numerals and texts mean something. -/
def ofDocument : Document → Option Json
  | .null => some null
  | .bool b => some (bool b)
  | .number n => ofNumeral n
  | .text t => t.map text
  | .list items => (ofDocuments items).map list
  | .object members => (ofMembers members).map fun ms =>
      object (ms.foldl (fun acc (k, v) => Assoc.put k v acc) [])

def ofDocuments : List Document → Option (List Json)
  | [] => some []
  | d :: rest => do
    let x ← ofDocument d
    let xs ← ofDocuments rest
    some (x :: xs)

def ofMembers : List (Quoted × Document) → Option (List (String × Json))
  | [] => some []
  | (key, d) :: rest => do
    let k ← key
    let x ← ofDocument d
    let xs ← ofMembers rest
    some ((k, x) :: xs)

end

/-- A character between double quotes. -/
def escape (c : Char) : List Char :=
  if c = '"' then ['\\', '"']
  else if c = '\\' then ['\\', '\\']
  else if c = Char.ofNat 8 then ['\\', 'b']
  else if c = Char.ofNat 12 then ['\\', 'f']
  else if c = '\n' then ['\\', 'n']
  else if c = '\r' then ['\\', 'r']
  else if c = '\t' then ['\\', 't']
  else if c.toNat < 32 then
    ['\\', 'u', '0', '0'] ++ Hex.digits (UInt8.ofNat c.toNat)
  else [c]

def quote (t : String) : String := "\"" ++ String.ofList (t.toList.flatMap escape) ++ "\""

/-- An exponent of ten, its sign always written. -/
def exponentText (e : Int) : String :=
  "e" ++ (if e < 0 then "-" else "+") ++ toString e.natAbs

/-- A magnitude: positional from 10⁻⁵ up to 10¹⁶ with at least one digit after the point, else with
a mark for the exponent. -/
def showMagnitude (m : Magnitude) : String :=
  if m.isZero then "0.0"
  else
    let (d, k) := (Shortest.digits m)
    let (d, k) := Shortest.strip 20 d k
    let ds := Nat.toDigits 10 d
    let point : Int := ds.length + k
    if 0 ≤ k ∧ point ≤ 16 then
      String.ofList (ds ++ List.replicate k.toNat '0') ++ ".0"
    else if 0 < point ∧ point ≤ 16 then
      String.ofList (ds.take point.toNat) ++ "." ++ String.ofList (ds.drop point.toNat)
    else if -5 < point ∧ point ≤ 0 then
      "0." ++ String.ofList (List.replicate (-point).toNat '0' ++ ds)
    else
      let head := String.ofList (ds.take 1)
      let tail := if ds.length = 1 then "" else "." ++ String.ofList (ds.drop 1)
      head ++ tail ++ exponentText (point - 1)

def showReal (x : Binary64) : String :=
  (if x.negative then "-" else "") ++ showMagnitude x.magnitude

/-- Puts a written member in the order of the keys. -/
def insertMember (key text : String) : List (String × String) → List (String × String)
  | [] => [(key, text)]
  | (k, t) :: rest =>
    if key < k then (key, text) :: (k, t) :: rest else (k, t) :: insertMember key text rest

mutual

/-- A value without spaces, the members of objects in the order of their keys. -/
def compact : Json → String
  | null => "null"
  | bool b => if b then "true" else "false"
  | integer n => toString n
  | real x => showReal x
  | text t => quote t
  | list items => "[" ++ ",".intercalate (compactItems items) ++ "]"
  | object members =>
    "\x7b" ++ ",".intercalate ((compactMembers members).map fun (k, t) => quote k ++ ":" ++ t) ++
      "\x7d"

def compactItems : List Json → List String
  | [] => []
  | x :: rest => x.compact :: compactItems rest

def compactMembers : List (String × Json) → List (String × String)
  | [] => []
  | (k, x) :: rest => insertMember k x.compact (compactMembers rest)

end

/-- How deeply lists and objects nest. -/
def Document.depth : Document → Nat
  | .list items => 1 + depths items
  | .object members => 1 + memberDepths members
  | _ => 0
where
  depths : List Document → Nat
    | [] => 0
    | d :: rest => max d.depth (depths rest)
  memberDepths : List (Quoted × Document) → Nat
    | [] => 0
    | (_, d) :: rest => max d.depth (memberDepths rest)

end Json
end LedgerScript
