import LedgerScript.Ledger.Sighash
import LedgerScript.Script.Number

/-!
What evaluation works on, and the steps that behaviours are made of.

Stacks are lists with the top in front. What an operation did before it failed stays done, so an
action answers the state in either case.
-/
namespace LedgerScript

/-- What is being spent: the transaction, the index of the input, and the verification flags. -/
structure Spend where
  transaction : Option Record
  input : Nat
  flags : UInt32

def Spend.has (spend : Spend) (flag : UInt32) : Bool := spend.flags &&& flag != 0

structure State where
  stack : List Bytes
  alt : List Bytes
  /-- Whether each open branch is taken, the innermost first. -/
  branches : List Bool
  /-- Operations counted against the limit. -/
  operations : Nat
  /-- Where the script begins for signatures: after the last separator that was run. -/
  codeStart : Nat
  error : Option Error
deriving DecidableEq

namespace State

def empty : State := ⟨[], [], [], 0, 0, none⟩

/-- The state in which another script begins: only the main stack is carried over. -/
def restart (state : State) : State := { empty with stack := state.stack }

/-- Whether every enclosing branch is taken. -/
def isExecuting (state : State) : Bool := state.branches.all id

/-- How many items the two stacks hold. -/
def depth (state : State) : Nat := state.stack.length + state.alt.length

end State

abbrev Action (α : Type) := EStateM Error State α

/-- An operation that is being run: under its name, as part of a script, for a spend. -/
structure Call where
  op : Operation
  name : String
  script : Script
  spend : Spend

namespace Call

def fault (call : Call) (fault : OperationFault) : Error := .script (.operation call.name fault)

def fail {α : Type} (call : Call) (fault : OperationFault) : Action α := throw (call.fault fault)

/-- Fails unless there are so many items. -/
def require (call : Call) (n : Nat) : Action Unit := fun s =>
  if s.stack.length < n then .error (.underflow call.name n s.stack.length) s else .ok () s

/-- Takes the top item. -/
def pop (call : Call) : Action Bytes := fun s =>
  match s.stack with
  | [] => .error (.underflow call.name 1 0) s
  | item :: rest => .ok item { s with stack := rest }

/-- Reads the top item. -/
def top (call : Call) : Action Bytes := fun s =>
  match s.stack with
  | [] => .error (.underflow call.name 1 0) s
  | item :: _ => .ok item s

/-- Takes so many items, the top first. -/
def popMany (call : Call) : Nat → Action (List Bytes)
  | 0 => pure []
  | n + 1 => do
    let item ← call.pop
    let items ← call.popMany n
    pure (item :: items)

/-- Takes the top item as a number. -/
def popNumber (call : Call) : Action Int := do
  let item ← call.pop
  match Script.toNumber Limits.numberSize item with
  | .ok n => pure n
  | .error e => throw e

end Call

namespace Action

def push (item : Bytes) : Action Unit := modify fun s => { s with stack := item :: s.stack }

def pushNumber (n : Int) : Action Unit := push (Script.ofNumber n)

def pushBool (b : Bool) : Action Unit := push (Script.ofBool b)

/-- The value of a computation that does not touch the state. -/
def ofExcept {α : Type} : Except Error α → Action α
  | .ok x => pure x
  | .error e => throw e

end Action
end LedgerScript
