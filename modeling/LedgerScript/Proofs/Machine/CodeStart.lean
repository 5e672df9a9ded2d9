import Mathlib.Tactic.SplitIfs
import LedgerScript.Proofs.Machine.Triple
import LedgerScript.Proofs.Script.Number

namespace LedgerScript

/-- The error says that bytes end too early. -/
def Error.isTruncation : Error → Bool
  | .truncated _ _ => true
  | _ => false

theorem Script.not_truncation_of_toNumber {limit : Nat} {item : Bytes} {e : Error}
    (failed : toNumber limit item = .error e) : e.isTruncation = false := by
  rw [toNumber_error failed]
  rfl

namespace Action

variable {α β : Type}

/-- From every state in which the covered part begins at one place an action leaves it at the
other. Where it fails, it is not because bytes end too early. -/
def Shifts (k l : Nat) (m : Action α) : Prop :=
  Meets (fun s => s.codeStart = k) m (fun _ s => s.codeStart = l) fun e _ => e.isTruncation = false

namespace Shifts

variable {k l n : Nat} {m m' : Action α} {f : α → Action β}

theorem pure (x : α) : Shifts k k (Pure.pure x : Action α) := Meets.pure fun _ begins => begins

theorem throw {e : Error} (h : e.isTruncation = false) :
    Shifts k l (MonadExcept.throw e : Action α) := Meets.throw fun _ _ => h

theorem bind (first : Shifts k l m) (second : ∀ x, Shifts l n (f x)) : Shifts k n (m >>= f) :=
  Meets.bind first second

theorem map {g : α → β} (h : Shifts k l m) : Shifts k l (m >>= fun x => Pure.pure (g x)) :=
  Meets.map h

theorem modify {g : State → State} (h : ∀ s, (g s).codeStart = s.codeStart) :
    Shifts k k (modify g) := Meets.modify fun s begins => (h s).trans begins

theorem read {f : State → Action β} (h : ∀ s, s.codeStart = k → Shifts k l (f s)) :
    Shifts k l (get >>= f) := Meets.read h

theorem ite {c : Prop} [Decidable c] (yes : Shifts k l m) (no : Shifts k l m') :
    Shifts k l (if c then m else m') := Meets.ite yes no

theorem ofExcept {x : Except Error α} (h : ∀ e, x = .error e → e.isTruncation = false) :
    Shifts k k (Action.ofExcept x) :=
  Meets.ofExcept (fun _ _ _ begins => begins) fun e failed _ _ => h e failed

theorem push (item : Bytes) : Shifts k k (Action.push item) := modify fun _ => rfl

end Shifts
end Action

open LedgerScript.Action (Meets Shifts)

namespace Call

variable (call : Call) {k : Nat}

theorem fail_shifts {α : Type} {l : Nat} (fault : OperationFault) :
    Shifts k l (call.fail fault : Action α) := Shifts.throw rfl

theorem require_shifts (n : Nat) : Shifts k k (call.require n) :=
  Meets.require (fun _ begins _ => begins) fun _ _ _ => rfl

theorem pop_shifts : Shifts k k call.pop :=
  Meets.pop (fun _ _ _ begins _ => begins) fun _ _ _ => rfl

theorem top_shifts : Shifts k k call.top :=
  Meets.top (fun _ _ _ begins _ => begins) fun _ _ _ => rfl

theorem popMany_shifts (n : Nat) : Shifts k k (call.popMany n) := Meets.popMany call.pop_shifts n

theorem popNumber_shifts : Shifts k k call.popNumber :=
  Meets.popNumber call.pop_shifts fun _ _ _ => rfl

theorem popIndex_shifts : Shifts k k call.popIndex :=
  Meets.popIndex call.popNumber_shifts (fun _ _ _ begins _ => begins) fun _ _ _ => rfl

theorem popCount_shifts (what : String) (most : Nat) : Shifts k k (call.popCount what most) :=
  Meets.popCount call.popNumber_shifts fun _ _ _ => rfl

theorem countKeys_shifts (keys : Nat) : Shifts k k (call.countKeys keys) :=
  Meets.countKeys (fun _ begins _ => begins) fun _ _ => rfl

theorem pushData_shifts : Shifts k k call.pushData := Shifts.map (.push _)

theorem pushNumber_shifts : Shifts k k call.pushNumber := Shifts.map (.push _)

theorem upgradable_shifts : Shifts k k call.upgradable :=
  .ite (call.fail_shifts _) (.pure _)

theorem branch_shifts (negated : Bool) : Shifts k k (call.branch negated) :=
  Meets.branch call.pop_shifts (fun _ _ begins => begins) fun _ begins => begins

theorem orElse_shifts : Shifts k k call.orElse :=
  Meets.orElse (fun _ _ _ begins _ => begins) fun _ _ _ => rfl

theorem endBranch_shifts : Shifts k k call.endBranch :=
  Meets.endBranch (fun _ _ _ begins _ => begins) fun _ _ _ => rfl

theorem verify_shifts : Shifts k k call.verify :=
  call.top_shifts.bind fun _ => .ite call.pop_shifts.map (call.fail_shifts _)

theorem toAlt_shifts : Shifts k k call.toAlt :=
  call.pop_shifts.bind fun _ => Shifts.map (.modify fun _ => rfl)

theorem fromAlt_shifts : Shifts k k call.fromAlt :=
  Meets.fromAlt (fun _ _ _ begins _ => begins) fun _ _ _ => rfl

theorem dupIfTrue_shifts : Shifts k k call.dupIfTrue :=
  call.top_shifts.bind fun _ => .ite (Shifts.map (.push _)) (.pure _)

theorem depth_shifts : Shifts k k depth := .read fun _ _ => Shifts.map (.push _)

theorem pick_shifts : Shifts k k call.pick :=
  call.popIndex_shifts.bind fun _ => Shifts.map (.push _)

theorem roll_shifts : Shifts k k call.roll :=
  call.popIndex_shifts.bind fun _ => Shifts.map (.modify fun _ => rfl)

theorem size_shifts : Shifts k k call.size :=
  call.top_shifts.bind fun _ => Shifts.map (.push _)

theorem equal_shifts (verifying : Bool) : Shifts k k (call.equal verifying) := by
  refine (call.require_shifts 2).bind fun _ => ?_
  refine call.pop_shifts.bind fun right => ?_
  refine call.pop_shifts.bind fun left => ?_
  exact .ite (.ite (.pure _) (call.fail_shifts _)) (Shifts.map (.push _))

theorem unary_shifts (f : UnaryNumber) : Shifts k k (call.unary f) :=
  call.popNumber_shifts.bind fun _ => Shifts.map (.push _)

theorem binary_shifts (f : BinaryNumber) : Shifts k k (call.binary f) := by
  refine (call.require_shifts 2).bind fun _ => ?_
  refine call.popNumber_shifts.bind fun b => ?_
  exact call.popNumber_shifts.bind fun a => Shifts.map (.push _)

theorem verifyEqualNumbers_shifts : Shifts k k call.verifyEqualNumbers := by
  refine (call.require_shifts 2).bind fun _ => ?_
  refine call.popNumber_shifts.bind fun b => ?_
  exact call.popNumber_shifts.bind fun a => .ite (.pure _) (call.fail_shifts _)

theorem within_shifts : Shifts k k call.within := by
  refine (call.require_shifts 3).bind fun _ => ?_
  refine call.popNumber_shifts.bind fun upper => ?_
  refine call.popNumber_shifts.bind fun lower => ?_
  exact call.popNumber_shifts.bind fun x => Shifts.map (.push _)

theorem digest_shifts (f : ItemDigest) : Shifts k k (call.digest f) :=
  call.pop_shifts.bind fun _ => Shifts.map (.push _)

/-- The covered part begins behind the separator. -/
theorem codeSeparator_shifts : Shifts k call.op.stop call.codeSeparator := fun _ _ => rfl

theorem lockTimeReached_error {lock : Int} {e : Error}
    (failed : call.lockTimeReached lock = .error e) : ∃ fault, e = call.fault fault := by
  unfold lockTimeReached at failed
  split at failed
  · cases failed
    exact ⟨_, rfl⟩
  cases present : call.spend.transaction with
  | none =>
    rw [present] at failed
    cases failed
    exact ⟨_, rfl⟩
  | some tx =>
    simp only [present] at failed
    cases found : tx.inputs[call.spend.input]? <;> simp only [found] at failed <;>
      split_ifs at failed <;> cases failed <;> exact ⟨_, rfl⟩

theorem checkLockTime_shifts (optional : Bool) : Shifts k k (call.checkLockTime optional) := by
  refine .ite call.upgradable_shifts (call.top_shifts.bind fun item => ?_)
  refine Shifts.bind (.ofExcept fun _ => Script.not_truncation_of_toNumber) fun lock => ?_
  refine Shifts.map (.ofExcept fun e failed => ?_)
  obtain ⟨fault, rfl⟩ := call.lockTimeReached_error failed
  rfl

end Call

theorem StackMove.run_shifts (move : StackMove) (call : Call) {k : Nat} :
    Shifts k k (move.run call) := Meets.move (fun _ _ _ begins _ => begins) fun _ _ _ => rfl

end LedgerScript
