import LedgerScript.Curve.Signature
import LedgerScript.Machine.State
import LedgerScript.Script.Push

/-!
Signature checks.

A signature is its encoding followed by a byte for the hash type. It covers the script from the
last separator on, without the pushes of the signatures that are checked together. Several
signatures are matched against several keys in order: each key is tried once.
-/
namespace LedgerScript

/-- Whether all items of one list can be matched, in order, with items of another. -/
def matchInOrder {σ κ : Type} (check : σ → κ → Except Error Bool) :
    List σ → List κ → Except Error Bool
  | [], _ => .ok true
  | _ :: _, [] => .ok false
  | s :: ss, k :: ks => do
    if ← check s k then matchInOrder check ss ks else matchInOrder check (s :: ss) ks

namespace Call

/-- The script that signatures cover. -/
def signedCode (call : Call) (codeStart : Nat) (signatures : List Bytes) : Except Error Script :=
  signatures.foldlM (fun code signature => Script.findAndDelete code (Script.push signature))
    (call.script.drop codeStart)

/-- Whether a signature of the covered script is by the holder of the key. -/
def checkOne (call : Call) (code : Script) (signature key : Bytes) : Except Error Bool :=
  match signature.getLast? with
  | none => .ok false
  | some type =>
    match call.spend.transaction with
    | none => .error (call.fault .signatureWithoutTransaction)
    | some tx => do
      let digest ← Sighash.digest tx call.spend.input code ⟨type.toUInt32⟩
      pure (Curve.verify digest.bytes signature.dropLast key)

def checkSigResult (call : Call) : Action Bool := do
  call.require 2
  let key ← call.pop
  let signature ← call.pop
  let start := (← get).codeStart
  let code ← Action.ofExcept (call.signedCode start [signature])
  Action.ofExcept (call.checkOne code signature key)

def checkSig (call : Call) (verifying : Bool) : Action String := do
  let valid ← call.checkSigResult
  if verifying then
    if valid then pure s!"{call.name}: signature is valid"
    else call.fail .invalidSignature
  else
    Action.pushBool valid
    let word := if valid then "valid" else "invalid"
    pure s!"{call.name}: signature is {word}"

/-- Takes a count of at most `most`. -/
def popCount (call : Call) (what : String) (most : Nat) : Action Nat := do
  let n ← call.popNumber
  if n < 0 || (most : Int) < n then call.fail (.countOutOfRange what n) else pure n.toNat

/-- Counts the keys of a check against the limit of operations. -/
def countKeys (call : Call) (keys : Nat) : Action Unit := do
  modify fun s => { s with operations := s.operations + keys }
  if Limits.operations < (← get).operations then call.fail .tooManyOperations

/-- Takes keys, signatures and one further item; answers whether the signatures match, how many
signatures there are, and how many keys. -/
def checkMultiSigResult (call : Call) : Action (Bool × Nat × Nat) := do
  let keyCount ← call.popCount "public key" Limits.multisigKeys
  call.countKeys keyCount
  call.require keyCount
  let keys ← call.popMany keyCount
  let signatureCount ← call.popCount "signature" keyCount
  call.require signatureCount
  let signatures ← call.popMany signatureCount
  let _ ← call.pop
  let start := (← get).codeStart
  let code ← Action.ofExcept (call.signedCode start signatures)
  let valid ← Action.ofExcept (matchInOrder (call.checkOne code) signatures keys)
  pure (valid, signatureCount, keyCount)

def checkMultiSig (call : Call) (verifying : Bool) : Action String := do
  let (valid, m, n) ← call.checkMultiSigResult
  if verifying then
    if valid then pure s!"{call.name}: {m}-of-{n} signatures valid"
    else call.fail (.invalidSignatures m n)
  else
    Action.pushBool valid
    let word := if valid then "valid" else "invalid"
    pure s!"{call.name}: {m}-of-{n} signatures {word}"

end Call
end LedgerScript
