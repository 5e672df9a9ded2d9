import LedgerScript.Machine.Behaviour
import LedgerScript.Machine.Table

/-!
Running one operation under a table.

Counted operations are counted first, whether they are in a branch that is taken or not. Disabled
codes and pushes that are too long fail in any branch. In a branch that is not taken only the
conditionals run. After a behaviour has run the two stacks must be within their limit.
-/
namespace LedgerScript

/-- Counts an operation against the limit. -/
def countOperation (op : Operation) : Action Unit := do
  if Opcode.isCounted op.opcode then
    modify fun s => { s with operations := s.operations + 1 }
    if Limits.operations < (← get).operations then throw (.script .tooManyOperations)

/-- Refuses what fails in any branch. -/
def refuseAnywhere (table : Table) (op : Operation) : Except Error Unit :=
  if Opcode.isDisabled op.opcode && !table.isOverridden op.opcode then
    .error (.script (.operation (table.displayName op.opcode) .disabled))
  else
    match op.data with
    | some data =>
      if Limits.itemSize < data.length then .error (.script (.pushTooLong data.length)) else .ok ()
    | none => .ok ()

/-- Fails if the two stacks hold too many items. -/
def checkDepth : Action Unit := fun s =>
  if Limits.stackItems < s.depth then .error (.script (.stackTooLarge s.depth)) s else .ok () s

/-- Runs the behaviour that the table gives the code. -/
def dispatch (table : Table) (spend : Spend) (script : Script) (op : Operation) : Action String :=
  match table.entry? op.opcode with
  | none => throw (.unknownOpcode op.opcode)
  | some entry => do
    let report ← entry.handler.run ⟨op, entry.name, script, spend⟩
    checkDepth
    pure report

/-- Runs an operation of a script and answers what is reported. -/
def execute (table : Table) (spend : Spend) (script : Script) (op : Operation) :
    Action String := do
  countOperation op
  Action.ofExcept (refuseAnywhere table op)
  if (← get).isExecuting || Opcode.isConditional op.opcode then dispatch table spend script op
  else pure s!"Skipped {table.displayName op.opcode} (unexecuted branch)"

end LedgerScript
