import LedgerScript.Proofs.Ledger.Faults
import LedgerScript.Proofs.Machine.CodeStart
import LedgerScript.Proofs.Machine.Steps

/-!
What signatures cover, in every state of every run.

The covered part of a script begins at a boundary between operations, so it is made up of the
operations behind the last separator, and nothing that is done with it fails for bytes that end too
early.
-/
namespace LedgerScript

open LedgerScript.Action (Meets Shifts)

theorem Error.OfCheck.not_truncation {e : Error} (h : e.OfCheck) : e.isTruncation = false := by
  cases h with
  | script fault => rfl
  | writer fault =>
    cases fault with
    | misfit fault => cases fault <;> rfl
    | refusal fault => cases fault <;> rfl

namespace Call

/-- A signature check over the script that is given for the signature. -/
def checkSigOver (call : Call) (code : List Bytes → Script) : Action Bool := do
  call.require 2
  let key ← call.pop
  let signature ← call.pop
  Action.ofExcept (call.checkOne (code [signature]) signature key)

/-- A check of several signatures over the script that is given for all of them. -/
def checkMultiSigOver (call : Call) (code : List Bytes → Script) : Action (Bool × Nat × Nat) := do
  let keyCount ← call.popCount "public key" Limits.multisigKeys
  call.countKeys keyCount
  call.require keyCount
  let keys ← call.popMany keyCount
  let signatureCount ← call.popCount "signature" keyCount
  call.require signatureCount
  let signatures ← call.popMany signatureCount
  let _ ← call.pop
  let valid ← Action.ofExcept (matchInOrder (call.checkOne (code signatures)) signatures keys)
  pure (valid, signatureCount, keyCount)

/-- From the place on, what signatures cover is a script of whole operations. -/
structure Covers (call : Call) (k : Nat) (code : List Bytes → Script) : Prop where
  covered : ∀ signatures, call.signedCode k signatures = .ok (code signatures)
  splits : ∀ signatures, ∃ ops, (code signatures).operations = .ok ops

variable {call : Call} {k : Nat} {code : List Bytes → Script}

theorem checkSigResult_eq (covers : call.Covers k code) {s : State} (hs : s.codeStart = k) :
    call.checkSigResult s = call.checkSigOver code s := by
  refine (call.require_shifts 2).bind_congr (fun _ s hs => ?_) hs
  refine call.pop_shifts.bind_congr (fun key s hs => ?_) hs
  refine call.pop_shifts.bind_congr (fun signature s hs => ?_) hs
  rw [Action.get_bind, hs, covers.covered [signature]]
  rfl

theorem checkMultiSigResult_eq (covers : call.Covers k code) {s : State} (hs : s.codeStart = k) :
    call.checkMultiSigResult s = call.checkMultiSigOver code s := by
  refine (call.popCount_shifts _ _).bind_congr (fun keyCount s hs => ?_) hs
  refine (call.countKeys_shifts keyCount).bind_congr (fun _ s hs => ?_) hs
  refine (call.require_shifts keyCount).bind_congr (fun _ s hs => ?_) hs
  refine (call.popMany_shifts keyCount).bind_congr (fun keys s hs => ?_) hs
  refine (call.popCount_shifts _ _).bind_congr (fun signatureCount s hs => ?_) hs
  refine (call.require_shifts signatureCount).bind_congr (fun _ s hs => ?_) hs
  refine (call.popMany_shifts signatureCount).bind_congr (fun signatures s hs => ?_) hs
  refine call.pop_shifts.bind_congr (fun _ s hs => ?_) hs
  rw [Action.get_bind, hs, covers.covered signatures]
  rfl

theorem checkSigOver_shifts (covers : call.Covers k code) :
    Shifts k k (call.checkSigOver code) := by
  refine (call.require_shifts 2).bind fun _ => ?_
  refine call.pop_shifts.bind fun key => ?_
  refine call.pop_shifts.bind fun signature => .ofExcept fun e failed => ?_
  obtain ⟨ops, split⟩ := covers.splits [signature]
  exact (checkOne_error split failed).not_truncation

theorem checkMultiSigOver_shifts (covers : call.Covers k code) :
    Shifts k k (call.checkMultiSigOver code) := by
  refine (call.popCount_shifts _ _).bind fun keyCount => ?_
  refine (call.countKeys_shifts keyCount).bind fun _ => ?_
  refine (call.require_shifts keyCount).bind fun _ => ?_
  refine (call.popMany_shifts keyCount).bind fun keys => ?_
  refine (call.popCount_shifts _ _).bind fun signatureCount => ?_
  refine (call.require_shifts signatureCount).bind fun _ => ?_
  refine (call.popMany_shifts signatureCount).bind fun signatures => ?_
  refine call.pop_shifts.bind fun _ => Shifts.map (.ofExcept fun e failed => ?_)
  obtain ⟨ops, split⟩ := covers.splits signatures
  obtain ⟨signature, key, failed⟩ := matchInOrder_error failed
  exact (checkOne_error split failed).not_truncation

theorem checkSig_shifts (covers : call.Covers k code) (verifying : Bool) :
    Shifts k k (call.checkSig verifying) := by
  refine Shifts.bind (Meets.congr (fun s => checkSigResult_eq covers) (checkSigOver_shifts covers))
    fun valid => ?_
  exact .ite (.ite (.pure _) (call.fail_shifts _)) (Shifts.map (.push _))

theorem checkMultiSig_shifts (covers : call.Covers k code) (verifying : Bool) :
    Shifts k k (call.checkMultiSig verifying) := by
  refine Shifts.bind
    (Meets.congr (fun s => checkMultiSigResult_eq covers) (checkMultiSigOver_shifts covers)) ?_
  rintro ⟨valid, m, n⟩
  exact .ite (.ite (.pure _) (call.fail_shifts _)) (Shifts.map (.push _))

end Call

/-- Where the covered part begins after a behaviour, if it began at `k` before. -/
def Handler.codeStart (handler : Handler) (op : Operation) (k : Nat) : Nat :=
  match handler with
  | codeSeparator => op.stop
  | _ => k

/-- **Only a separator shifts the beginning of the covered part**, under whatever code it is bound.
-/
theorem Handler.run_shifts (handler : Handler) {call : Call} {k : Nat}
    {code : List Bytes → Script} (covers : call.Covers k code) :
    Shifts k (handler.codeStart call.op k) (handler.run call) := by
  cases handler with
  | pushData => exact call.pushData_shifts
  | pushNumber => exact call.pushNumber_shifts
  | nop => exact .pure _
  | upgradable => exact call.upgradable_shifts
  | reserved | disabled | unspendable => exact call.fail_shifts _
  | branch negated => exact call.branch_shifts negated
  | orElse => exact call.orElse_shifts
  | endBranch => exact call.endBranch_shifts
  | verify => exact call.verify_shifts
  | toAlt => exact call.toAlt_shifts
  | fromAlt => exact call.fromAlt_shifts
  | move m => exact m.run_shifts call
  | dupIfTrue => exact call.dupIfTrue_shifts
  | depth => exact Call.depth_shifts
  | pick => exact call.pick_shifts
  | roll => exact call.roll_shifts
  | size => exact call.size_shifts
  | equal verifying => exact call.equal_shifts verifying
  | unary f => exact call.unary_shifts f
  | binary f => exact call.binary_shifts f
  | verifyEqualNumbers => exact call.verifyEqualNumbers_shifts
  | within => exact call.within_shifts
  | digest f => exact call.digest_shifts f
  | codeSeparator => exact call.codeSeparator_shifts
  | checkSig verifying => exact Call.checkSig_shifts covers verifying
  | checkMultiSig verifying => exact Call.checkMultiSig_shifts covers verifying
  | checkLockTime optional => exact call.checkLockTime_shifts optional

theorem refuseAnywhere_error {table : Table} {op : Operation} {e : Error}
    (refused : refuseAnywhere table op = .error e) : e.isTruncation = false := by
  unfold refuseAnywhere at refused
  split at refused
  · cases refused
    rfl
  · split at refused
    · split at refused <;> cases refused
      rfl
    · cases refused

theorem checkDepth_shifts {k : Nat} : Shifts k k checkDepth :=
  Meets.checkDepth (fun _ begins _ => begins) fun _ _ => rfl

section Operations

variable {table : Table} {spend : Spend} {script : Script} {op : Operation} {k : Nat}
  {code : List Bytes → Script}

theorem dispatch_shifts (covers : ∀ name, Call.Covers ⟨op, name, script, spend⟩ k code) :
    Shifts k (((table.entry? op.opcode).map Entry.handler).elim k (·.codeStart op k))
      (dispatch table spend script op) := by
  unfold dispatch
  cases table.entry? op.opcode with
  | none => exact .throw rfl
  | some entry =>
    exact (entry.handler.run_shifts (covers entry.name)).bind fun _ => checkDepth_shifts.map

/-- An operation shifts the beginning of the covered part as the behaviour does to which it is
dispatched; where it is skipped it leaves it. -/
theorem execute_shifts (covers : ∀ name, Call.Covers ⟨op, name, script, spend⟩ k code) {s : State}
    (hs : s.codeStart = k) :
    Meets (· = s) (execute table spend script op)
      (fun _ s' => s'.codeStart = (table.dispatched? op s).elim k (·.codeStart op k))
      fun e _ => e.isTruncation = false := by
  rintro s rfl
  have counted : (s.count op).codeStart = k := (s.count_codeStart op).trans hs
  rw [execute_eq]
  by_cases exceeds : s.Exceeds op
  · rw [if_pos exceeds]
    rfl
  · rw [if_neg exceeds]
    cases refused : refuseAnywhere table op with
    | error e => exact refuseAnywhere_error refused
    | ok u =>
      dsimp only
      unfold Table.dispatched?
      cases runs : s.isExecuting || Opcode.isConditional op.opcode with
      | true => exact dispatch_shifts covers _ counted
      | false => exact counted

end Operations

namespace Run

/-- The separator that the next step runs, if it runs one. -/
def separating? (run : Run) : Option Operation :=
  match run.outcome, run.pending with
  | .running, op :: _ =>
    if run.table.dispatched? op run.state = some .codeSeparator then some op else none
  | _, _ => none

/-- The separator that is run last in so many steps. -/
def lastSeparator? (run : Run) : Nat → Option Operation
  | 0 => none
  | n + 1 => (run.advance n).separating?.or (run.lastSeparator? n)

theorem separating?_of_ended {run : Run} (ended : run.outcome ≠ .running) :
    run.separating? = none := by
  unfold separating?
  split
  · next running _ => exact absurd running ended
  · rfl

theorem separating?_of_nil {run : Run} (last : run.pending = []) : run.separating? = none := by
  unfold separating?
  split
  · next op rest _ next =>
    rw [last] at next
    cases next
  · rfl

theorem separating?_of_cons {run : Run} (running : run.outcome = .running) {op : Operation}
    {rest : List Operation} (next : run.pending = op :: rest) : run.separating? =
      if run.table.dispatched? op run.state = some .codeSeparator then some op else none := by
  simp only [separating?, running, next]

theorem separating?_stop {run : Run} (running : run.outcome = .running) {op : Operation}
    {rest : List Operation} (next : run.pending = op :: rest) (separator : Option Operation) :
    (run.separating?.or separator).elim 0 Operation.stop =
      (run.table.dispatched? op run.state).elim (separator.elim 0 Operation.stop)
        (·.codeStart op (separator.elim 0 Operation.stop)) := by
  rw [separating?_of_cons running next]
  cases run.table.dispatched? op run.state with
  | none => rfl
  | some handler => cases handler <;> simp [Handler.codeStart]

/-- The run has come to a place of the script where the covered part begins behind the separator,
and has not failed because bytes end too early. -/
structure Tracks (script : Script) (ops : List Operation) (separator : Option Operation)
    (run : Run) : Prop where
  script : run.script = script
  pending : ∀ op ∈ run.pending, op ∈ ops
  known : ∀ op ∈ separator, op ∈ ops
  codeStart : run.outcome = .running → run.state.codeStart = separator.elim 0 Operation.stop
  untruncated : ∀ e, run.outcome = .failed e → e.isTruncation = false

variable {script : Script} {ops : List Operation} {separator : Option Operation} {run : Run}

theorem covers_covered (split : script.operations = .ok ops) (known : ∀ op ∈ separator, op ∈ ops)
    (spend : Spend) (op : Operation) (name : String) :
    Call.Covers ⟨op, name, script, spend⟩ (separator.elim 0 Operation.stop)
      (script.covered ops separator) where
  covered := Script.deletePushes_eq_covered split known
  splits := Script.operations_covered split separator

theorem start_tracks (split : script.operations = .ok ops) (table : Table) (spend : Spend)
    (state : State) : (start script table spend state).Tracks script ops none := by
  unfold start operationsToRun
  by_cases long : Limits.scriptSize < script.length
  · rw [if_pos long]
    exact ⟨rfl, by simp, by simp, nofun, by rintro _ ⟨⟩; rfl⟩
  · rw [if_neg long, split]
    exact ⟨rfl, fun _ member => member, by simp, fun _ => rfl, nofun⟩

theorem Tracks.finish (tracks : run.Tracks script ops separator) :
    run.finish.Tracks script ops separator := by
  unfold Run.finish
  split
  · exact ⟨tracks.script, tracks.pending, tracks.known, nofun, nofun⟩
  · exact ⟨tracks.script, tracks.pending, tracks.known, nofun, by rintro _ ⟨⟩; rfl⟩

theorem Tracks.after (split : script.operations = .ok ops)
    (tracks : run.Tracks script ops separator) (running : run.outcome = .running) {op : Operation}
    {rest : List Operation} (next : run.pending = op :: rest) :
    (run.after op rest).Tracks script ops (run.separating?.or separator) := by
  have members : ∀ other ∈ op :: rest, other ∈ ops := next ▸ tracks.pending
  obtain ⟨own, others⟩ := List.forall_mem_cons.mp members
  have known : ∀ other ∈ run.separating?.or separator, other ∈ ops := by
    rw [separating?_of_cons running next]
    split
    · rintro _ ⟨⟩
      exact own
    · exact tracks.known
  -- the covered part begins at a boundary, so whatever the operation is it cannot fail to be split
  have shifted : Meets _ (execute run.table run.spend script op) _ _ :=
    execute_shifts (covers_covered split tracks.known run.spend op) (tracks.codeStart running)
  rw [← tracks.script] at shifted
  cases ran : execute run.table run.spend run.script op run.state with
  | ok report s' =>
    have begins := shifted.of_ok rfl ran
    rw [after_of_ok ran]
    exact ⟨tracks.script, others, known,
      fun _ => begins.trans (separating?_stop running next separator).symm, nofun⟩
  | error e s' =>
    have untruncated := shifted.of_error rfl ran
    rw [after_of_error ran]
    refine ⟨tracks.script, others, known, nofun, ?_⟩
    rintro _ ⟨⟩
    exact untruncated

theorem Tracks.step (split : script.operations = .ok ops)
    (tracks : run.Tracks script ops separator) :
    run.step.2.Tracks script ops (run.separating?.or separator) := by
  obtain ⟨ended, same⟩ | ⟨running, op, rest, next, same⟩ | ⟨running, last, same⟩ := run.step_cases
  · rw [same, separating?_of_ended ended, Option.none_or]
    exact tracks
  · rw [same]
    exact tracks.after split running next
  · rw [same, separating?_of_nil last, Option.none_or]
    exact tracks.finish

theorem advance_tracks (split : script.operations = .ok ops) (table : Table) (spend : Spend)
    (state : State) (n : Nat) :
    ((start script table spend state).advance n).Tracks script ops
      ((start script table spend state).lastSeparator? n) := by
  induction n with
  | zero => exact start_tracks split table spend state
  | succ n ih =>
    rw [advance_succ]
    exact ih.step split

/-- **Every signature check is over whole operations.** After any number of steps of a run of a
script that splits into operations, the run has not failed because bytes end too early, and
whichever operation checks signatures next, what they cover is the operations behind the separator
that was run last, without the pushes of those signatures. It splits into operations again. -/
theorem advance_covers (split : script.operations = .ok ops) (table : Table) (spend : Spend)
    (state : State) (n : Nat) :
    let first := start script table spend state
    let run := first.advance n
    (∀ needed remaining, run.outcome ≠ .failed (.truncated needed remaining)) ∧
      (run.outcome = .running → ∀ op name,
        let call : Call := ⟨op, name, script, spend⟩
        let code := script.covered ops (first.lastSeparator? n)
        (∀ signatures, call.signedCode run.state.codeStart signatures = .ok (code signatures) ∧
          ∃ others, (code signatures).operations = .ok others) ∧
        call.checkSigResult (run.state.count op) = call.checkSigOver code (run.state.count op) ∧
        call.checkMultiSigResult (run.state.count op) =
          call.checkMultiSigOver code (run.state.count op)) := by
  intro first run
  have tracks : run.Tracks script ops (first.lastSeparator? n) :=
    advance_tracks split table spend state n
  constructor
  · intro needed remaining failed
    have untruncated := tracks.untruncated _ failed
    cases untruncated
  · intro running op name call code
    have covers : call.Covers _ code := covers_covered split tracks.known spend op name
    have begins := tracks.codeStart running
    have counted : (run.state.count op).codeStart = _ := (run.state.count_codeStart op).trans begins
    refine ⟨fun signatures => ⟨?_, covers.splits signatures⟩,
      Call.checkSigResult_eq covers counted, Call.checkMultiSigResult_eq covers counted⟩
    rw [begins]
    exact covers.covered signatures

/-- Another code is bound to the separator, and the usual one does nothing; the first of two
separators stands in a branch that is not taken. -/
theorem advance_covers_rebound :
    let table : Table := ⟨[⟨0xb0, "OP_NOP1", .codeSeparator⟩, ⟨0xab, "OP_CODESEPARATOR", .nop⟩]⟩
    let script : Script := [0x00, 0x63, 0xb0, 0x68, 0xb0, 0xab, 0x01, 0x30, 0x51, 0xac]
    let ops : List Operation :=
      [⟨0, 1, 0x00, some []⟩, ⟨1, 2, 0x63, none⟩, ⟨2, 3, 0xb0, none⟩, ⟨3, 4, 0x68, none⟩,
       ⟨4, 5, 0xb0, none⟩, ⟨5, 6, 0xab, none⟩, ⟨6, 8, 0x01, some [0x30]⟩, ⟨8, 9, 0x51, none⟩,
       ⟨9, 10, 0xac, none⟩]
    let spend : Spend := ⟨none, 0, 0⟩
    let first := start script table spend .empty
    let run := first.advance 8
    let check : Operation := ⟨9, 10, 0xac, none⟩
    let call : Call := ⟨check, "OP_CHECKSIG", script, spend⟩
    script.operations = .ok ops ∧ run.outcome = .running ∧ run.pending = [check] ∧
      first.lastSeparator? 8 = some ⟨4, 5, 0xb0, none⟩ ∧
      script.covered ops (first.lastSeparator? 8) [[0x30]] = [0xab, 0x51, 0xac] ∧
      call.checkSigResult (run.state.count check) =
        call.checkSigOver (script.covered ops (first.lastSeparator? 8))
          (run.state.count check) := by
  intro table script ops spend first run check call
  have split : script.operations = .ok ops := rfl
  have running : run.outcome = .running := by decide +kernel
  have separator : first.lastSeparator? 8 = some ⟨4, 5, 0xb0, none⟩ := by decide +kernel
  obtain ⟨-, checks⟩ := advance_covers split table spend .empty 8
  have checked := checks running check "OP_CHECKSIG"
  have code : script.covered ops (first.lastSeparator? 8) [[0x30]] = [0xab, 0x51, 0xac] := by
    rw [separator]
    decide
  exact ⟨split, running, by decide +kernel, separator, code, checked.2.1⟩

end Run
end LedgerScript
