import LedgerScript.Ledger.Transaction
import LedgerScript.Script.Operation

/-!
Signature hashes: the digest that the signature of an input commits to.

The hash type says what is covered. Its low five bits select the outputs: all of them, none, or
only the one beside the input; in the last two cases the other inputs' sequence numbers are not
covered either. A further bit leaves out the other inputs. Scripts of the other inputs are never
covered.
-/
namespace LedgerScript

structure HashType where
  word : UInt32
deriving DecidableEq, Repr

namespace HashType

/-- Covers no output. -/
def isNone (type : HashType) : Bool := type.word &&& 0x1f == 2

/-- Covers the output beside the input. -/
def isSingle (type : HashType) : Bool := type.word &&& 0x1f == 3

/-- Covers none of the other inputs. -/
def isAlone (type : HashType) : Bool := type.word &&& 0x80 != 0

end HashType

namespace Sighash

/-- An input as it is signed: with the script code if it is the one signed for, else blank. -/
def signedInput (type : HashType) (index : Nat) (code : Script) (i : Nat) (input : Input) : Input :=
  if i = index then { input with script := code }
  else if type.isNone || type.isSingle then { input with script := [], sequence := 0 }
  else { input with script := [] }

/-- The inputs as they are signed. -/
def signedInputs (type : HashType) (index : Nat) (code : Script) (inputs : List Input) :
    List Input :=
  let all := inputs.mapIdx (signedInput type index code)
  if type.isAlone then (all.drop index).take 1 else all

/-- The output that stands for one that is not covered. -/
def blankOutput : Output := ⟨-1, []⟩

/-- The outputs as they are signed. -/
def signedOutputs (type : HashType) (index : Nat) (outputs : List Output) : List Output :=
  if type.isNone then []
  else if type.isSingle then
    List.replicate (min index outputs.length) blankOutput ++ (outputs.drop index).take 1
  else outputs

/-- The bytes that are hashed: the transaction as it is signed, then the hash type. -/
def preimage (tx : Record) (index : Nat) (code : Script) (type : HashType) :
    Except Error Bytes := do
  let code ← code.withoutOpcode Opcode.codeSeparator
  let tx' ← tx.setInputs (signedInputs type index code tx.inputs)
  let tx' ← tx'.setOutputs (signedOutputs type index tx.outputs)
  let bytes ← tx'.toBytes
  pure (bytes ++ word32 type.word)

/-- The byte 1 and 31 zeros. -/
def one : Hash := ⟨1 :: List.replicate 31 0, rfl⟩

/-- The digest for an input. A single output that does not exist is signed as the number one. -/
def digest (tx : Record) (index : Nat) (code : Script) (type : HashType) : Except Error Hash :=
  if tx.inputs.length ≤ index then
    .error (.script (.inputOutOfRange index tx.inputs.length))
  else if type.isSingle && decide (tx.outputs.length ≤ index) then .ok one
  else (preimage tx index code type).map Hash.of

end Sighash
end LedgerScript
