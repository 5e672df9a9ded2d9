import LedgerScript.Machine.State

/-!
Lock time checks: the top item is a lock time that the transaction must have reached.

The item stays on the stack. Block heights and times are not compared with each other, and an
input with the final sequence number is not locked at all.
-/
namespace LedgerScript

/-- Whether a lock time is a block height rather than a time. -/
def isHeight (lock : Int) : Bool := lock < Limits.lockTimeThreshold

namespace Call

/-- The transaction's lock time, if the lock and the input satisfy all conditions. -/
def lockTimeReached (call : Call) (lock : Int) : Except Error Int :=
  if lock < 0 then .error (call.fault (.negativeLockTime lock))
  else
    match call.spend.transaction with
    | none => .error (call.fault .lockTimeWithoutTransaction)
    | some tx =>
      let reached := (tx.lockTime?.getD 0).toInt
      if isHeight reached != isHeight lock then .error (call.fault (.lockTimeKinds lock reached))
      else if reached < lock then .error (call.fault (.lockTimeNotReached lock reached))
      else
        match tx.inputs[call.spend.input]? with
        | none => .error (call.fault (.noInput call.spend.input))
        | some input =>
          if input.sequence = Limits.finalSequence then .error (call.fault .finalInput)
          else .ok reached

def verifyLockTime (call : Call) : Action String := do
  let item ← call.top
  let lock ← Action.ofExcept (Script.toNumber Limits.lockTimeSize item)
  let reached ← Action.ofExcept (call.lockTimeReached lock)
  pure s!"{call.name}: lock time {lock} satisfied by transaction lock time {reached}"

end Call
end LedgerScript
