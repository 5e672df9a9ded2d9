import LedgerScript.Machine.Execute

/-!
Runs of a script, one operation at a time.

A run ends when an operation fails, or when none are left; it has then succeeded if all branches
are closed. The error of the state is set when the run has failed, and only then.
-/
namespace LedgerScript

/-- The record of an operation that was run: the main stack after it, and what was reported. -/
structure Step where
  index : Nat
  opcode : UInt8
  name : String
  stack : List Bytes
  report : String
deriving DecidableEq

inductive Outcome where
  | running
  | success
  | failed (error : Error)
deriving DecidableEq

structure Run where
  script : Script
  table : Table
  spend : Spend
  state : State
  /-- The operations that are still to be run. -/
  pending : List Operation
  /-- The index of the next operation. -/
  position : Nat
  /-- The operations that were run, the last first. -/
  trail : List Step
  outcome : Outcome

namespace Run

/-- The operations of a script that is short enough to be run. -/
def operationsToRun (script : Script) : Except Error (List Operation) :=
  if Limits.scriptSize < script.length then .error (.script (.scriptTooLong script.length))
  else script.operations

/-- A run on the main stack of a state; a script that cannot be run has failed already. -/
def start (script : Script) (table : Table) (spend : Spend) (state : State) : Run :=
  match operationsToRun script with
  | .ok ops => ⟨script, table, spend, state.restart, ops, 0, [], .running⟩
  | .error e =>
    ⟨script, table, spend, { state.restart with error := some e }, [], 0, [], .failed e⟩

def steps (run : Run) : List Step := run.trail.reverse

def isFinished (run : Run) : Bool := run.outcome != .running

/-- Ends a run in which no operation is left. -/
def finish (run : Run) : Run :=
  if run.state.branches = [] then { run with outcome := .success }
  else
    let e := Error.script .unbalanced
    { run with state := { run.state with error := some e }, outcome := .failed e }

/-- The run after an operation. -/
def after (run : Run) (op : Operation) (rest : List Operation) : Run :=
  let next (state : State) (report : String) (outcome : Outcome) : Run :=
    let step : Step :=
      ⟨run.position, op.opcode, run.table.displayName op.opcode, state.stack, report⟩
    { run with
      state := state
      pending := rest
      position := run.position + 1
      trail := step :: run.trail
      outcome := outcome }
  match execute run.table run.spend run.script op run.state with
  | .ok report state => next state report .running
  | .error e state => next { state with error := some e } e.message (.failed e)

/-- Runs the next operation, if there is one; answers whether one was run. -/
def step (run : Run) : Bool × Run :=
  match run.outcome, run.pending with
  | .running, op :: rest => (true, run.after op rest)
  | .running, [] => (false, run.finish)
  | _, _ => (false, run)

/-- Runs up to so many operations. -/
def stepMany : Nat → Run → Run
  | 0, run => run
  | n + 1, run =>
    match run.step with
    | (true, next) => stepMany n next
    | (false, next) => next

/-- Runs to the end. -/
def complete (run : Run) : Run := stepMany (run.pending.length + 1) run

/-- All runs from one to the end, each after one more operation. -/
def history : Nat → Run → List Run
  | 0, _ => []
  | n + 1, run =>
    match run.step with
    | (true, next) => next :: history n next
    | (false, _) => []

end Run

/-- Runs the unlocking script, then the locking script on the stack it leaves; answers whether the
top item is then true. -/
def verifyScripts (unlocking locking : Script) (table : Table) (spend : Spend) :
    Except Error Bool :=
  let first := (Run.start unlocking table spend .empty).complete
  match first.outcome with
  | .failed e => .error e
  | _ =>
    let second := (Run.start locking table spend first.state).complete
    match second.outcome with
    | .failed e => .error e
    | _ => .ok ((second.state.stack.head?.map Script.isTrue).getD false)

end LedgerScript
