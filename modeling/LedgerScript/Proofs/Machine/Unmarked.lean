import LedgerScript.Proofs.Machine.Triple

namespace LedgerScript

/-- Where the error of the state is `e`, it still is after a success. -/
def Action.Unmarked {α : Type} (e : Option Error) (m : Action α) : Prop :=
  Action.Meets (fun s => s.error = e) m (fun _ s => s.error = e) fun _ _ => True

open LedgerScript.Action (Meets Unmarked)

namespace Action.Unmarked

variable {α β : Type} {e : Option Error} {m m' : Action α}

theorem bind {f : α → Action β} (first : Unmarked e m) (second : ∀ x, Unmarked e (f x)) :
    Unmarked e (m >>= f) := Meets.bind first second

theorem map {f : α → β} (h : Unmarked e m) : Unmarked e (m >>= fun x => Pure.pure (f x)) :=
  Meets.map h

theorem ite {c : Prop} [Decidable c] (yes : Unmarked e m) (no : Unmarked e m') :
    Unmarked e (if c then m else m') := Meets.ite yes no

theorem read {f : State → Action α} (h : ∀ s, Unmarked e (f s)) : Unmarked e (get >>= f) :=
  Meets.read fun s _ => h s

theorem pure (x : α) : Unmarked e (Pure.pure x) := Meets.pure fun _ h => h

theorem throw (fault : Error) : Unmarked e (MonadExcept.throw fault : Action α) :=
  Meets.throw fun _ _ => trivial

theorem modify {g : State → State} (h : ∀ s, (g s).error = s.error) : Unmarked e (modify g) :=
  Meets.modify fun s own => (h s).trans own

theorem push (item : Bytes) : Unmarked e (Action.push item) := modify fun _ => rfl

theorem ofExcept (x : Except Error α) : Unmarked e (Action.ofExcept x) :=
  Meets.ofExcept (fun _ _ _ h => h) fun _ _ _ _ => trivial

end Action.Unmarked

namespace Call

variable (call : Call) {e : Option Error}

theorem require_unmarked (n : Nat) : Unmarked e (call.require n) :=
  Meets.require (fun _ h _ => h) fun _ _ _ => trivial

theorem pop_unmarked : Unmarked e call.pop :=
  Meets.pop (fun _ _ _ h _ => h) fun _ _ _ => trivial

theorem top_unmarked : Unmarked e call.top :=
  Meets.top (fun _ _ _ h _ => h) fun _ _ _ => trivial

theorem popMany_unmarked (n : Nat) : Unmarked e (call.popMany n) :=
  Meets.popMany call.pop_unmarked n

theorem popNumber_unmarked : Unmarked e call.popNumber :=
  Meets.popNumber call.pop_unmarked fun _ _ _ => trivial

theorem popIndex_unmarked : Unmarked e call.popIndex :=
  Meets.popIndex call.popNumber_unmarked (fun _ _ _ h _ => h) fun _ _ _ => trivial

theorem popCount_unmarked (what : String) (most : Nat) : Unmarked e (call.popCount what most) :=
  Meets.popCount call.popNumber_unmarked fun _ _ _ => trivial

theorem countKeys_unmarked (keys : Nat) : Unmarked e (call.countKeys keys) :=
  Meets.countKeys (fun _ h _ => h) fun _ _ => trivial

theorem branch_unmarked (negated : Bool) : Unmarked e (call.branch negated) :=
  Meets.branch call.pop_unmarked (fun _ _ h => h) fun _ h => h

theorem orElse_unmarked : Unmarked e call.orElse :=
  Meets.orElse (fun _ _ _ h _ => h) fun _ _ _ => trivial

theorem endBranch_unmarked : Unmarked e call.endBranch :=
  Meets.endBranch (fun _ _ _ h _ => h) fun _ _ _ => trivial

theorem fromAlt_unmarked : Unmarked e call.fromAlt :=
  Meets.fromAlt (fun _ _ _ h _ => h) fun _ _ _ => trivial

theorem checkSigResult_unmarked : Unmarked e call.checkSigResult := by
  refine (call.require_unmarked 2).bind fun _ => ?_
  refine call.pop_unmarked.bind fun key => call.pop_unmarked.bind fun signature => ?_
  exact .read fun s => .bind (.ofExcept _) fun code => .ofExcept _

theorem checkMultiSigResult_unmarked : Unmarked e call.checkMultiSigResult := by
  refine (call.popCount_unmarked _ _).bind fun keyCount => ?_
  refine (call.countKeys_unmarked keyCount).bind fun _ => ?_
  refine (call.require_unmarked keyCount).bind fun _ => ?_
  refine (call.popMany_unmarked keyCount).bind fun keys => ?_
  refine (call.popCount_unmarked _ _).bind fun signatureCount => ?_
  refine (call.require_unmarked signatureCount).bind fun _ => ?_
  refine (call.popMany_unmarked signatureCount).bind fun signatures => ?_
  refine call.pop_unmarked.bind fun _ => .read fun s => ?_
  exact .bind (.ofExcept _) fun code => .map (.ofExcept _)

end Call

theorem StackMove.run_unmarked (move : StackMove) (call : Call) {e : Option Error} :
    Unmarked e (move.run call) := Meets.move (fun _ _ _ h _ => h) fun _ _ _ => trivial

/-- **No behaviour sets the error of a state.** -/
theorem Handler.run_unmarked (handler : Handler) (call : Call) {e : Option Error} :
    Unmarked e (handler.run call) := by
  cases handler with
  | pushData | pushNumber => exact .map (.push _)
  | nop => exact .pure _
  | upgradable => exact .ite (.throw _) (.pure _)
  | reserved | disabled | unspendable => exact .throw _
  | branch negated => exact call.branch_unmarked negated
  | orElse => exact call.orElse_unmarked
  | endBranch => exact call.endBranch_unmarked
  | verify => exact call.top_unmarked.bind fun _ => .ite call.pop_unmarked.map (.throw _)
  | toAlt => exact call.pop_unmarked.bind fun _ => .map (.modify fun _ => rfl)
  | fromAlt => exact call.fromAlt_unmarked
  | move m => exact m.run_unmarked call
  | dupIfTrue => exact call.top_unmarked.bind fun _ => .ite (.map (.push _)) (.pure _)
  | depth => exact .read fun _ => .map (.push _)
  | pick => exact call.popIndex_unmarked.bind fun _ => .map (.push _)
  | roll => exact call.popIndex_unmarked.bind fun _ => .map (.modify fun _ => rfl)
  | size => exact call.top_unmarked.bind fun _ => .map (.push _)
  | equal verifying =>
    exact (call.require_unmarked 2).bind fun _ => call.pop_unmarked.bind fun _ =>
      call.pop_unmarked.bind fun _ => .ite (.ite (.pure _) (.throw _)) (.map (.push _))
  | unary f => exact call.popNumber_unmarked.bind fun _ => .map (.push _)
  | binary f =>
    exact (call.require_unmarked 2).bind fun _ => call.popNumber_unmarked.bind fun _ =>
      call.popNumber_unmarked.bind fun _ => .map (.push _)
  | verifyEqualNumbers =>
    exact (call.require_unmarked 2).bind fun _ => call.popNumber_unmarked.bind fun _ =>
      call.popNumber_unmarked.bind fun _ => .ite (.pure _) (.throw _)
  | within =>
    exact (call.require_unmarked 3).bind fun _ => call.popNumber_unmarked.bind fun _ =>
      call.popNumber_unmarked.bind fun _ => call.popNumber_unmarked.bind fun _ => .map (.push _)
  | digest f => exact call.pop_unmarked.bind fun _ => .map (.push _)
  | codeSeparator => exact .map (.modify fun _ => rfl)
  | checkSig verifying =>
    exact call.checkSigResult_unmarked.bind fun _ =>
      .ite (.ite (.pure _) (.throw _)) (.map (.push _))
  | checkMultiSig verifying =>
    exact call.checkMultiSigResult_unmarked.bind fun _ =>
      .ite (.ite (.pure _) (.throw _)) (.map (.push _))
  | checkLockTime optional =>
    exact .ite (.ite (.throw _) (.pure _)) (call.top_unmarked.bind fun _ =>
      .bind (.ofExcept _) fun _ => .map (.ofExcept _))

theorem execute_error_eq {table : Table} {spend : Spend} {script : Script} {op : Operation}
    {s s' : State} {report : String} (ran : execute table spend script op s = .ok report s') :
    s'.error = s.error := by
  have counted : (s.count op).error = s.error := by
    unfold State.count
    split <;> rfl
  obtain ⟨-, -, ran⟩ := execute_eq_ok_iff.mp ran
  split at ran
  · obtain ⟨-, entry, -, handled⟩ := dispatch_eq_ok_iff.mp ran
    exact (entry.handler.run_unmarked _).of_ok counted handled
  · rw [ran.1, counted]

end LedgerScript
