import LedgerScript.Digest.Sha1
import LedgerScript.Machine.Arithmetic
import LedgerScript.Machine.LockTime
import LedgerScript.Machine.Rearrange
import LedgerScript.Machine.Signature

namespace LedgerScript

def ItemDigest.apply : ItemDigest → Bytes → Bytes
  | .ripemd160 => Digest.Ripemd160.hash
  | .sha1 => Digest.Sha1.hash
  | .sha256 => Digest.Sha256.hash
  | .hash160 => Digest.hash160
  | .hash256 => Digest.hash256

namespace Call

def pushData (call : Call) : Action String := do
  let data := call.op.data.getD []
  Action.push data
  pure s!"Pushed {showItem data} onto the stack"

/-- The number that a code pushes: its distance from 0x50. -/
def pushNumber (call : Call) : Action String := do
  let n : Int := call.op.opcode.toNat - Opcode.reserved.toNat
  Action.pushNumber n
  pure s!"Pushed the number {n} onto the stack"

def nop (call : Call) : Action String := pure s!"{call.name}: no operation"

def upgradable (call : Call) : Action String :=
  if call.spend.has Limits.discourageUpgradable then call.fail .discouraged else call.nop

def branch (call : Call) (negated : Bool) : Action String := do
  if (← get).isExecuting then
    let item ← call.pop
    let taken := Script.isTrue item != negated
    modify fun s => { s with branches := taken :: s.branches }
    let word := if taken then "executing" else "skipping"
    pure s!"{call.name}: popped {showItem item}, {word} the following branch"
  else
    modify fun s => { s with branches := false :: s.branches }
    pure s!"{call.name}: inside an unexecuted branch, skipping its body"

def orElse (call : Call) : Action String := do
  match (← get).branches with
  | [] => throw (.script .elseWithoutBranch)
  | taken :: outer =>
    modify fun s => { s with branches := (!taken) :: outer }
    let word := if (← get).isExecuting then "executing" else "skipping"
    pure s!"{call.name}: {word} the alternative branch"

def endBranch (call : Call) : Action String := do
  match (← get).branches with
  | [] => call.fail .endWithoutBranch
  | _ :: outer =>
    modify fun s => { s with branches := outer }
    pure s!"{call.name}: closed conditional block"

/-- Takes the top item if it is true; a false item stays. -/
def verify (call : Call) : Action String := do
  let item ← call.top
  if Script.isTrue item then
    let _ ← call.pop
    pure s!"{call.name}: popped {showItem item}, verification passed"
  else call.fail (.falseItem item)

def toAlt (call : Call) : Action String := do
  let item ← call.pop
  modify fun s => { s with alt := item :: s.alt }
  pure s!"Moved {showItem item} to the alt stack"

def fromAlt (call : Call) : Action String := do
  match (← get).alt with
  | [] => throw (.underflow call.name 1 0)
  | item :: rest =>
    modify fun s => { s with alt := rest, stack := item :: s.stack }
    pure s!"Moved {showItem item} from the alt stack"

def dupIfTrue (call : Call) : Action String := do
  let item ← call.top
  if Script.isTrue item then
    Action.push item
    pure s!"Duplicated {showItem item} because it is true"
  else pure s!"Did not duplicate {showItem item} because it is false"

def depth : Action String := do
  let n := (← get).stack.length
  Action.pushNumber n
  pure s!"Pushed the stack depth {n}"

/-- Takes an index into the stack below it, counted from the top, and finds the item there. -/
def popIndex (call : Call) : Action (Nat × Bytes) := do
  let n ← call.popNumber
  let stack := (← get).stack
  match (if 0 ≤ n then stack[n.toNat]? else none) with
  | none => call.fail (.indexOutOfRange n stack.length)
  | some item => pure (n.toNat, item)

def pick (call : Call) : Action String := do
  let (n, item) ← call.popIndex
  Action.push item
  pure s!"Copied item {n} ({showItem item}) to the top"

def roll (call : Call) : Action String := do
  let (n, item) ← call.popIndex
  modify fun s => { s with stack := item :: s.stack.eraseIdx n }
  pure s!"Moved item {n} ({showItem item}) to the top"

def size (call : Call) : Action String := do
  let item ← call.top
  Action.pushNumber item.length
  pure s!"Pushed the size of the top item: {item.length}"

def equal (call : Call) (verifying : Bool) : Action String := do
  call.require 2
  let right ← call.pop
  let left ← call.pop
  if verifying then
    if left = right then pure s!"Verified {showItem left} equals {showItem right}"
    else call.fail (.unequal left right)
  else
    Action.pushBool (left = right)
    let word := if left = right then "equals" else "does not equal"
    pure s!"{showItem left} {word} {showItem right}"

def digest (call : Call) (f : ItemDigest) : Action String := do
  let item ← call.pop
  let result := f.apply item
  Action.push result
  pure s!"{call.name}: {showItem item} -> {showItem result}"

def codeSeparator (call : Call) : Action String := do
  modify fun s => { s with codeStart := call.op.stop }
  pure s!"{call.name}: signatures now cover the script from byte {call.op.stop}"

def checkLockTime (call : Call) (optional : Bool) : Action String :=
  if optional && !call.spend.has Limits.checkLockTime then call.upgradable
  else call.verifyLockTime

end Call

/-- Runs a behaviour. -/
def Handler.run (handler : Handler) (call : Call) : Action String :=
  match handler with
  | .pushData => call.pushData
  | .pushNumber => call.pushNumber
  | .nop => call.nop
  | .upgradable => call.upgradable
  | .reserved => call.fail .reserved
  | .disabled => call.fail .disabled
  | .unspendable => call.fail .unspendable
  | .branch negated => call.branch negated
  | .orElse => call.orElse
  | .endBranch => call.endBranch
  | .verify => call.verify
  | .toAlt => call.toAlt
  | .fromAlt => call.fromAlt
  | .move m => m.run call
  | .dupIfTrue => call.dupIfTrue
  | .depth => Call.depth
  | .pick => call.pick
  | .roll => call.roll
  | .size => call.size
  | .equal verifying => call.equal verifying
  | .unary f => call.unary f
  | .binary f => call.binary f
  | .verifyEqualNumbers => call.verifyEqualNumbers
  | .within => call.within
  | .digest f => call.digest f
  | .codeSeparator => call.codeSeparator
  | .checkSig verifying => call.checkSig verifying
  | .checkMultiSig verifying => call.checkMultiSig verifying
  | .checkLockTime optional => call.checkLockTime optional

end LedgerScript
