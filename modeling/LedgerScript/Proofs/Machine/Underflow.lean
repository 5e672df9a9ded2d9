import LedgerScript.Proofs.Ledger.Faults
import LedgerScript.Proofs.Machine.CodeStart
import LedgerScript.Proofs.Machine.Triple

/-!
What is left where items are missing.

A behaviour that looks for all its items before it takes any leaves the state as it was where some
are missing. Checks of several signatures do not: how many items they need stands on the stack, so
they take the numbers, and the keys, before they find that more is missing.
-/
namespace LedgerScript

open LedgerScript.Action (Meets)

def Error.isUnderflow : Error → Bool
  | .underflow _ _ _ => true
  | _ => false

namespace Action

/-- Given so many items, an action misses none, and leaves so many. -/
def Fed {α : Type} (k : Nat) (m : Action α) (l : Nat) : Prop :=
  Meets (fun s => k ≤ s.stack.length) m (fun _ s => l ≤ s.stack.length)
    fun e _ => e.isUnderflow = false

/-- Where an action misses items, the state is the one before. A success leaves so many items. -/
def Intact {α : Type} (m : Action α) (l : Nat) : Prop :=
  ∀ s, Meets (· = s) m (fun _ s' => l ≤ s'.stack.length) fun e s' => e.isUnderflow = true → s' = s

variable {α β : Type} {k l n : Nat} {m m' : Action α}

namespace Fed

theorem pure {x : α} : Fed k (Pure.pure x) 0 := Meets.pure fun _ _ => Nat.zero_le _

theorem throw {e : Error} (h : e.isUnderflow = false) : Fed k (MonadExcept.throw e : Action α) l :=
  Meets.throw fun _ _ => h

theorem bind {f : α → Action β} (first : Fed k m l) (second : ∀ x, Fed l (f x) n) :
    Fed k (m >>= f) n := Meets.bind first second

theorem map {f : α → β} (h : Fed k m l) : Fed k (m >>= fun x => Pure.pure (f x)) l := Meets.map h

theorem ite {c : Prop} [Decidable c] (yes : Fed k m l) (no : Fed k m' l) :
    Fed k (if c then m else m') l := Meets.ite yes no

theorem read {f : State → Action α} (h : ∀ s, Fed k (f s) l) : Fed k (get >>= f) l :=
  Meets.read fun s _ => h s

theorem modify {g : State → State} : Fed k (modify g) 0 := Meets.modify fun _ _ => Nat.zero_le _

theorem push {item : Bytes} : Fed k (Action.push item) 0 := modify

theorem ofExcept {x : Except Error α} (h : ∀ e, x = .error e → e.isUnderflow = false) :
    Fed k (Action.ofExcept x) k :=
  Meets.ofExcept (fun _ _ _ enough => enough) fun e failed _ _ => h e failed

end Fed

namespace Intact

theorem of_fed (h : Fed 0 m l) : Intact m l := fun _ =>
  Meets.mono h (fun _ _ => Nat.zero_le _) (fun _ _ after => after)
    fun _ _ none missed => absurd (none.symm.trans missed) Bool.false_ne_true

theorem throw {e : Error} : Intact (MonadExcept.throw e : Action α) l :=
  fun _ => Meets.throw fun _ same _ => same

/-- Nothing is missed after a first action that has made sure of it. -/
theorem bind {f : α → Action β} (first : Intact m k) (second : ∀ x, Fed k (f x) l) :
    Intact (m >>= f) l := fun s =>
  (first s).bind fun x => (second x).mono (fun _ enough => enough) (fun _ _ after => after)
    fun _ _ none missed => absurd (none.symm.trans missed) Bool.false_ne_true

theorem weaken (h : Intact m l) : Intact m 0 := fun s =>
  (h s).mono (fun _ same => same) (fun _ _ _ => Nat.zero_le _) fun _ _ same => same

theorem ite {c : Prop} [Decidable c] (yes : Intact m l) (no : Intact m' l) :
    Intact (if c then m else m') l := fun s => Meets.ite (yes s) (no s)

theorem read {f : State → Action α} (h : ∀ s, Intact (f s) l) : Intact (get >>= f) l :=
  fun s => Meets.read fun s' _ => h s' s

end Intact
end Action

open LedgerScript.Action (Fed Intact)

theorem Script.not_underflow_of_toNumber {limit : Nat} {item : Bytes} {e : Error}
    (failed : toNumber limit item = .error e) : e.isUnderflow = false := by
  rw [toNumber_error failed]
  rfl

theorem Script.not_underflow_of_findAndDelete {script : Script} {pattern : Bytes} {e : Error}
    (failed : script.findAndDelete pattern = .error e) : e.isUnderflow = false := by
  obtain ⟨needed, remaining, rfl⟩ := findAndDelete_error failed
  rfl

theorem Error.OfCheck.not_underflow {e : Error} (h : e.OfCheck) : e.isUnderflow = false := by
  cases h with
  | script fault => rfl
  | writer fault =>
    cases fault with
    | misfit fault => cases fault <;> rfl
    | refusal fault => cases fault <;> rfl

namespace Call

variable (call : Call) {k : Nat}

theorem not_underflow_of_signedCode {codeStart : Nat} {signatures : List Bytes} {e : Error}
    (failed : call.signedCode codeStart signatures = .error e) : e.isUnderflow = false := by
  unfold signedCode at failed
  generalize call.script.drop codeStart = code at failed
  induction signatures generalizing code with
  | nil => cases failed
  | cons signature signatures ih =>
    rw [List.foldlM_cons] at failed
    obtain deleting | ⟨code', -, failed⟩ := Fallible.bind_eq_error_iff.mp failed
    · exact Script.not_underflow_of_findAndDelete deleting
    · exact ih code' failed

theorem not_underflow_of_checkOne {code : Script} {signature key : Bytes} {e : Error}
    (failed : call.checkOne code signature key = .error e) : e.isUnderflow = false := by
  obtain separators | fault := checkOne_error_cases failed
  · exact Script.not_underflow_of_findAndDelete separators
  · exact fault.not_underflow

/-! ## Behaviours that look first -/

theorem fail_fed {α : Type} {l : Nat} (fault : OperationFault) :
    Fed k (call.fail fault : Action α) l := Fed.throw rfl

theorem require_intact (n : Nat) : Intact (call.require n) n := fun _ =>
  Meets.require (fun _ _ enough => enough) fun _ same _ _ => same

theorem pop_intact : Intact call.pop 0 := fun _ =>
  Meets.pop (fun _ _ _ _ _ => Nat.zero_le _) fun _ same _ _ => same

theorem top_intact : Intact call.top 1 := fun _ =>
  Meets.top (fun _ _ _ _ found => by simp [found]) fun _ same _ _ => same

theorem pop_fed : Fed (k + 1) call.pop k :=
  Meets.pop (fun _ _ _ enough found => by simpa [found] using enough)
    fun _ enough none => by simp [none] at enough

theorem popNumber_fed : Fed (k + 1) call.popNumber k :=
  Meets.popNumber call.pop_fed fun _ _ _ => rfl

theorem popNumber_intact : Intact call.popNumber 0 := by
  refine call.pop_intact.bind fun item => ?_
  split
  · exact .pure
  · next failed => exact .throw (Script.not_underflow_of_toNumber failed)

theorem popIndex_intact : Intact call.popIndex 0 := fun s =>
  Meets.popIndex (call.popNumber_intact s) (fun _ _ _ _ _ => Nat.zero_le _) fun _ _ _ => nofun

theorem branch_intact (negated : Bool) : Intact (call.branch negated) 0 := fun s =>
  Meets.branch (call.pop_intact s) (fun _ _ _ => Nat.zero_le _) fun _ _ => Nat.zero_le _

theorem orElse_intact : Intact call.orElse 0 := fun _ =>
  Meets.orElse (fun _ _ _ _ _ => Nat.zero_le _) fun _ same _ _ => same

theorem endBranch_intact : Intact call.endBranch 0 := fun _ =>
  Meets.endBranch (fun _ _ _ _ _ => Nat.zero_le _) fun _ same _ _ => same

theorem fromAlt_intact : Intact call.fromAlt 0 := fun _ =>
  Meets.fromAlt (fun _ _ _ _ _ => Nat.zero_le _) fun _ same _ _ => same

theorem checkSigResult_intact : Intact call.checkSigResult 0 := by
  refine (call.require_intact 2).bind fun _ => ?_
  refine call.pop_fed.bind fun key => call.pop_fed.bind fun signature => .read fun s => ?_
  exact .bind (.ofExcept fun _ => call.not_underflow_of_signedCode) fun code =>
    .ofExcept fun _ => call.not_underflow_of_checkOne

theorem verifyLockTime_intact : Intact call.verifyLockTime 1 := by
  refine call.top_intact.bind fun item => ?_
  refine Fed.bind (.ofExcept fun _ => Script.not_underflow_of_toNumber) fun lock => ?_
  refine .map (.ofExcept fun e failed => ?_)
  obtain ⟨fault, rfl⟩ := call.lockTimeReached_error failed
  rfl

end Call

theorem StackMove.run_intact (move : StackMove) (call : Call) : Intact (move.run call) 0 :=
  fun _ => Meets.move (fun _ _ _ _ _ => Nat.zero_le _) fun _ same _ _ => same

/-- Whether the behaviour checks several signatures. -/
def Handler.isMultiSig : Handler → Bool
  | checkMultiSig _ => true
  | _ => false

theorem Handler.isMultiSig_eq_true {handler : Handler} (several : handler.isMultiSig = true) :
    ∃ verifying, handler = checkMultiSig verifying := by
  cases handler with
  | checkMultiSig verifying => exact ⟨verifying, rfl⟩
  | _ => cases several

/-- **Where a behaviour misses items it has done nothing**, unless it checks several signatures. -/
theorem Handler.run_intact {handler : Handler} (single : handler.isMultiSig = false) (call : Call) :
    Intact (handler.run call) 0 := by
  cases handler with
  | pushData | pushNumber => exact .of_fed (.map .push)
  | nop => exact .of_fed .pure
  | upgradable => exact .of_fed (.ite (call.fail_fed _) .pure)
  | reserved | disabled | unspendable => exact .throw
  | branch negated => exact call.branch_intact negated
  | orElse => exact call.orElse_intact
  | endBranch => exact call.endBranch_intact
  | verify => exact call.top_intact.bind fun _ => .ite call.pop_fed.map (call.fail_fed _)
  | toAlt => exact call.pop_intact.bind fun _ => .map .modify
  | fromAlt => exact call.fromAlt_intact
  | move m => exact m.run_intact call
  | dupIfTrue => exact call.top_intact.bind fun _ => .ite (.map .push) .pure
  | depth => exact .read fun _ => .of_fed (.map .push)
  | pick => exact call.popIndex_intact.bind fun _ => .map .push
  | roll => exact call.popIndex_intact.bind fun _ => .map .modify
  | size => exact call.top_intact.bind fun _ => .map .push
  | equal verifying =>
    exact (call.require_intact 2).bind fun _ => call.pop_fed.bind fun _ =>
      call.pop_fed.bind fun _ => .ite (.ite .pure (call.fail_fed _)) (.map .push)
  | unary f => exact call.popNumber_intact.bind fun _ => .map .push
  | binary f =>
    exact (call.require_intact 2).bind fun _ => call.popNumber_fed.bind fun _ =>
      call.popNumber_fed.bind fun _ => .map .push
  | verifyEqualNumbers =>
    exact (call.require_intact 2).bind fun _ => call.popNumber_fed.bind fun _ =>
      call.popNumber_fed.bind fun _ => .ite .pure (call.fail_fed _)
  | within =>
    exact (call.require_intact 3).bind fun _ => call.popNumber_fed.bind fun _ =>
      call.popNumber_fed.bind fun _ => call.popNumber_fed.bind fun _ => .map .push
  | digest f => exact call.pop_intact.bind fun _ => .map .push
  | codeSeparator => exact .of_fed (.map .modify)
  | checkSig verifying =>
    exact call.checkSigResult_intact.bind fun _ => .ite (.ite .pure (call.fail_fed _)) (.map .push)
  | checkMultiSig verifying => cases single
  | checkLockTime optional =>
    exact .ite (.of_fed (.ite (call.fail_fed _) .pure)) call.verifyLockTime_intact.weaken

/-! ## Checks of several signatures -/

/-- From the top of these items some have been taken, and the other stack is as it was. -/
def State.LeftOf (items alt : List Bytes) (s : State) : Prop := s.stack <:+ items ∧ s.alt = alt

namespace Call

variable (call : Call) {items alt : List Bytes}

theorem pop_takes : Meets (State.LeftOf items alt) call.pop (fun _ => State.LeftOf items alt)
    fun _ => State.LeftOf items alt :=
  Meets.pop
    (fun _ item rest own found => ⟨(List.suffix_cons item rest).trans (found ▸ own.1), own.2⟩)
    fun _ own _ => own

theorem require_takes (n : Nat) : Meets (State.LeftOf items alt) (call.require n)
    (fun _ => State.LeftOf items alt) fun _ => State.LeftOf items alt :=
  Meets.require (fun _ own _ => own) fun _ own _ => own

theorem popMany_takes (n : Nat) : Meets (State.LeftOf items alt) (call.popMany n)
    (fun _ => State.LeftOf items alt) fun _ => State.LeftOf items alt :=
  Meets.popMany call.pop_takes n

/-- A count is taken as the item that it stands in is. -/
theorem popCount_meets {P R : State → Prop} (taken : Meets P call.pop (fun _ => R) fun _ => R)
    (what : String) (most : Nat) : Meets P (call.popCount what most) (fun _ => R) fun _ => R :=
  Meets.popCount (Meets.popNumber taken fun _ _ own => own) fun _ _ own => own

theorem countKeys_takes (keys : Nat) : Meets (State.LeftOf items alt) (call.countKeys keys)
    (fun _ => State.LeftOf items alt) fun _ => State.LeftOf items alt :=
  Meets.countKeys (fun _ own _ => own) fun _ own => own

/-- **A check of several signatures that fails has taken items from the top**, the number of keys
at least if there was one, and has not touched the other stack. -/
theorem checkMultiSig_takes (verifying : Bool) (s : State) :
    Meets (· = s) (call.checkMultiSig verifying) (fun _ _ => True)
      fun _ => State.LeftOf s.stack.tail s.alt := by
  have first : Meets (· = s) call.pop (fun _ => State.LeftOf s.stack.tail s.alt)
      fun _ => State.LeftOf s.stack.tail s.alt := by
    refine Meets.pop ?_ ?_
    · rintro _ item rest rfl found
      exact ⟨by simp [found], rfl⟩
    · rintro _ rfl none
      exact ⟨by simp [none], rfl⟩
  have result : Meets (· = s) call.checkMultiSigResult
      (fun _ => State.LeftOf s.stack.tail s.alt) fun _ => State.LeftOf s.stack.tail s.alt := by
    refine (call.popCount_meets first _ _).bind fun keyCount => ?_
    refine (call.countKeys_takes keyCount).bind fun _ => ?_
    refine (call.require_takes keyCount).bind fun _ => ?_
    refine (call.popMany_takes keyCount).bind fun keys => ?_
    refine (call.popCount_meets call.pop_takes _ _).bind fun signatureCount => ?_
    refine (call.require_takes signatureCount).bind fun _ => ?_
    refine (call.popMany_takes signatureCount).bind fun signatures => ?_
    refine call.pop_takes.bind fun _ => .read fun s' _ => ?_
    refine Meets.bind (.ofExcept (fun _ _ _ own => own) fun _ _ _ own => own) fun code => ?_
    exact .map (.ofExcept (fun _ _ _ own => own) fun _ _ _ own => own)
  refine result.bind fun (valid, m, n) => ?_
  refine .ite (.ite (.pure fun _ _ => trivial) (.throw fun _ own => own)) (.map ?_)
  exact .modify fun _ _ => trivial

end Call

/-- An underflow comes from the behaviour that the table gives the code. -/
theorem run_of_underflow {table : Table} {spend : Spend} {script : Script} {op : Operation}
    {s s' : State} {e : Error} (missed : e.isUnderflow = true)
    (failed : execute table spend script op s = .error e s') :
    ∃ entry, table.entry? op.opcode = some entry ∧
      entry.handler.run ⟨op, entry.name, script, spend⟩ (s.count op) = .error e s' := by
  rw [execute_eq] at failed
  split at failed
  · cases failed
    cases missed
  split at failed
  · next refused =>
    cases failed
    unfold refuseAnywhere at refused
    split_ifs at refused
    · cases refused
      cases missed
    · split at refused
      · split_ifs at refused
        cases refused
        cases missed
      · cases refused
  split at failed
  · rw [dispatch_eq] at failed
    split at failed
    · cases failed
      cases missed
    · next entry found =>
      refine ⟨entry, found, ?_⟩
      split at failed
      · next ran => rw [ran, failed]
      · split at failed <;> cases failed
        cases missed
  · cases failed

theorem Entry.isMultiSig_standard {opcode : UInt8} {entry : Entry}
    (found : standard? opcode = some entry) :
    entry.handler.isMultiSig = (opcode == 0xae || opcode == 0xaf) := by
  have all : ∀ v, (Handler.standard? v).all
      fun handler => handler.isMultiSig == (v == 0xae || v == 0xaf) := by
    apply Bytes.forall_byte
    decide +kernel
  obtain ⟨handler, standard, rfl⟩ := Option.map_eq_some_iff.mp found
  have same := all opcode
  rw [standard] at same
  exact beq_iff_eq.mp same

/-- **Where an operation misses items, both stacks are as they were**, and so is the rest of the
state but for the count, under any table that does not have the code check several signatures. -/
theorem execute_missing {table : Table} {spend : Spend} {script : Script} {op : Operation}
    {s s' : State} {e : Error} (missed : e.isUnderflow = true)
    (single : ∀ entry, table.entry? op.opcode = some entry → entry.handler.isMultiSig = false)
    (failed : execute table spend script op s = .error e s') : s' = s.count op := by
  obtain ⟨entry, found, ran⟩ := run_of_underflow missed failed
  exact (Handler.run_intact (single entry found) _ _).of_error rfl ran missed

/-- **What an underflow leaves.** The other stack is as it was, and so is the main stack, unless the
operation checks several signatures: then items from the top are gone, if there were any. -/
theorem execute_underflow {spend : Spend} {script : Script} {op : Operation} {s s' : State}
    {name : String} {needed available : Nat}
    (missed : execute .standard spend script op s =
      .error (.underflow name needed available) s') :
    s'.alt = s.alt ∧ s'.stack <:+ s.stack ∧
      (s'.stack = s.stack ↔ (op.opcode ≠ 0xae ∧ op.opcode ≠ 0xaf) ∨ s.stack = []) := by
  have multi {entry : Entry} (found : Table.standard.entry? op.opcode = some entry) :
      entry.handler.isMultiSig = (op.opcode == 0xae || op.opcode == 0xaf) :=
    Entry.isMultiSig_standard found
  by_cases single : op.opcode ≠ 0xae ∧ op.opcode ≠ 0xaf
  · have same := execute_missing rfl (fun entry found => by simp [multi found, single]) missed
    rw [same, State.count_alt, State.count_stack]
    exact ⟨rfl, List.suffix_rfl, iff_of_true rfl (.inl single)⟩
  · obtain ⟨entry, found, ran⟩ := run_of_underflow rfl missed
    have several : entry.handler.isMultiSig = true := by
      rw [multi found, Bool.or_eq_true, beq_iff_eq, beq_iff_eq]
      rwa [not_and_or, not_ne_iff, not_ne_iff] at single
    obtain ⟨verifying, behaviour⟩ := Handler.isMultiSig_eq_true several
    rw [behaviour] at ran
    obtain ⟨left, alt⟩ := (Call.checkMultiSig_takes _ verifying _).of_error rfl ran
    rw [State.count_stack] at left
    rw [State.count_alt] at alt
    refine ⟨alt, left.trans (List.tail_suffix _), fun same => .inr ?_, fun kept => ?_⟩
    · have shorter := left.length_le
      rw [same, List.length_tail] at shorter
      exact List.eq_nil_of_length_eq_zero (by omega)
    · have empty := kept.resolve_left single
      rw [empty, List.tail_nil, List.suffix_nil] at left
      rw [left, empty]

/-- An addition of one item. -/
theorem execute_underflow_add :
    let s : State := { State.empty with stack := [[1]], alt := [[2]] }
    execute .standard ⟨none, 0, 0⟩ [0x93] ⟨0, 1, 0x93, none⟩ s =
        .error (.underflow "OP_ADD" 2 1) { s with operations := 1 } ∧
      { s with operations := 1 }.stack = s.stack := by
  intro s
  have missed : execute .standard ⟨none, 0, 0⟩ [0x93] ⟨0, 1, 0x93, none⟩ s =
      .error (.underflow "OP_ADD" 2 1) { s with operations := 1 } := rfl
  exact ⟨missed, (execute_underflow missed).2.2.mpr (.inl (by decide))⟩

/-- A check of two keys finds their number and nothing below it. The number is gone. -/
theorem execute_underflow_multiSig :
    ¬∀ (spend : Spend) (script : Script) (op : Operation) (s s' : State) (name : String)
      (needed available : Nat), execute .standard spend script op s =
        .error (.underflow name needed available) s' → s'.stack = s.stack ∧ s'.alt = s.alt := by
  intro intact
  have missed : execute .standard ⟨none, 0, 0⟩ [0xae] ⟨0, 1, 0xae, none⟩
      { State.empty with stack := [[2]] } =
        .error (.underflow "OP_CHECKMULTISIG" 2 0) { State.empty with operations := 3 } := rfl
  cases (intact _ _ _ _ _ _ _ _ missed).1

end LedgerScript
