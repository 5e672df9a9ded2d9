import LedgerScript.Error
import LedgerScript.Machine.Handler

/-!
Tables of operations: the standard ones, with overrides laid on top.

The last override of a code counts. Names resolve to codes: among overridden codes of one name the
highest counts, then a standard code that is not overridden, then one of three aliases. Codes that
need data after them are never named in a script's text.
-/
namespace LedgerScript

structure Override where
  value : UInt8
  name : String
  handler : Handler
deriving DecidableEq, Repr

/-- The name and the behaviour that a table gives a code. -/
structure Entry where
  name : String
  handler : Handler
deriving DecidableEq, Repr

structure Table where
  /-- The overrides, in the order in which they are laid on. -/
  overrides : List Override
deriving DecidableEq, Repr

/-- The standard entry of a code. -/
def Entry.standard? (value : UInt8) : Option Entry :=
  (Handler.standard? value).map fun handler =>
    ⟨(Opcode.standardName? value).getD s!"OP_PUSHBYTES_{value.toNat}", handler⟩

namespace Table

def standard : Table := ⟨[]⟩

/-- Lays overrides on top of a table. -/
def overlay (table : Table) (overrides : List Override) : Table := ⟨table.overrides ++ overrides⟩

/-- The override that counts for a code. -/
def override? (table : Table) (value : UInt8) : Option Override :=
  table.overrides.reverse.find? (·.value = value)

/-- The overridden codes, in the order in which they first came. -/
def overridden (table : Table) : List UInt8 := (table.overrides.map Override.value).eraseDups

def isOverridden (table : Table) (value : UInt8) : Bool := table.overrides.any (·.value = value)

def entry? (table : Table) (value : UInt8) : Option Entry :=
  match table.override? value with
  | some o => some ⟨o.name, o.handler⟩
  | none => Entry.standard? value

def nameOf? (table : Table) (value : UInt8) : Option String := (table.entry? value).map Entry.name

/-- Whether a code can stand alone, without data after it. -/
def isNameable (value : UInt8) : Bool := !(1 ≤ value && value ≤ Opcode.pushData4)

/-- The codes that are spoken of by further names. -/
def aliases : List (String × UInt8) :=
  [("OP_FALSE", 0), ("OP_TRUE", Opcode.one), ("OP_NOP2", Opcode.checkLockTime)]

/-- The highest overridden code of a name. -/
def overrideNamed? (table : Table) (name : String) : Option UInt8 :=
  (table.overridden.filter fun v => isNameable v && table.nameOf? v == some name).max?

/-- The standard code of a name. -/
def standardNamed? (name : String) : Option UInt8 :=
  if name = "OP_0" then some 0
  else (Opcode.namesFromPushData1.idxOf? name).map fun i => UInt8.ofNat (Opcode.pushData1.toNat + i)

/-- The code that a name resolves to. -/
def valueOf? (table : Table) (name : String) : Option UInt8 :=
  match table.overrideNamed? name with
  | some v => some v
  | none =>
    match (standardNamed? name).filter fun v => isNameable v && !table.isOverridden v with
    | some v => some v
    | none => aliases.lookup name

/-- The name under which a code is written: its own, or an alias where that has been taken. -/
def textName? (table : Table) (value : UInt8) : Option String :=
  match table.nameOf? value with
  | none => none
  | some name =>
    if table.valueOf? name = some value then some name
    else (aliases.map Prod.fst).find? fun other => table.valueOf? other = some value

/-- How many codes have an entry. -/
def size (table : Table) : Nat :=
  (List.range 256).countP fun v => (table.entry? (UInt8.ofNat v)).isSome

/-- A code's name, or its number where it has none. -/
def displayName (table : Table) (value : UInt8) : String :=
  (table.nameOf? value).getD ("OP_UNKNOWN_" ++ Hex.encode [value])

/-- A code as it is written in a script's text. -/
def token (table : Table) (value : UInt8) : String :=
  (table.textName? value).getD ("OP_UNKNOWN_" ++ Hex.encode [value])

theorem entry?_overlay_concat (table : Table) (overrides : List Override) (last : Override)
    (value : UInt8) : entry? (table.overlay (overrides ++ [last])) value =
      if last.value = value then some ⟨last.name, last.handler⟩
      else entry? (table.overlay overrides) value := by
  unfold entry? override? overlay
  rw [← List.append_assoc, List.reverse_append, List.reverse_singleton, List.singleton_append,
    List.find?_cons]
  by_cases own : last.value = value <;> simp [own]

theorem valueOf?_textName? {table : Table} {value : UInt8} {name : String}
    (h : table.textName? value = some name) : table.valueOf? name = some value := by
  unfold textName? at h
  split at h
  · simp at h
  · split at h
    · next found => cases h; exact found
    · simpa using List.find?_some h

end Table

/-- The behaviour of a name: a special one, or that of a standard code. -/
def Handler.named? (name : String) : Option Handler :=
  if name = "nop" then some .nop
  else if name = "disabled" then some .disabled
  else if name = "checklocktimeverify" then some (.checkLockTime true)
  else if name = "clams_checklocktimeverify" then some (.checkLockTime false)
  else (Table.standard.valueOf? name).bind Handler.standard?

/-- An override by the name of its behaviour. -/
def Override.make (value : UInt8) (name handler : String) : Except Error Override :=
  match Handler.named? handler with
  | some h => .ok ⟨value, name, h⟩
  | none => .error (.unknownHandler handler)

end LedgerScript
