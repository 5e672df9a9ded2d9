import LedgerScript.Proofs.Machine.Execution

/-!
Two states worked on side by side.

One may have items below those of the other, may stand in other branches, and may have counted
fewer operations. What succeeds in the first succeeds in the second and leaves the two alike.
-/
namespace LedgerScript

/-- In what a second state differs from a first. -/
structure Difference where
  /-- The items that the second has below those of the first. -/
  below : List Bytes
  /-- How many operations the first has counted and the second has not. -/
  counted : Nat
  /-- The branches around the first. -/
  outer : List Bool
  /-- The branches around the second. -/
  outer' : List Bool
  executing : outer.all id = outer'.all id

/-- The states differ in that only, and within the outer branches so many are open in each. -/
structure State.Alike (d : Difference) (level : Nat) (s t : State) : Prop where
  stack : t.stack = s.stack ++ d.below
  alt : t.alt = s.alt
  operations : s.operations = t.operations + d.counted
  codeStart : t.codeStart = s.codeStart
  error : t.error = s.error
  branches : ∃ inner, inner.length = level ∧ s.branches = inner ++ d.outer ∧
    t.branches = inner ++ d.outer'

variable {d : Difference} {n : Nat} {s t : State}

theorem State.Alike.isExecuting (h : s.Alike d n t) : s.isExecuting = t.isExecuting := by
  obtain ⟨inner, -, hs, ht⟩ := h.branches
  simp only [State.isExecuting, hs, ht, List.all_append, d.executing]

theorem State.Alike.withBranches {m : Nat} (h : s.Alike d n t) (inner : List Bool)
    (length : inner.length = m) :
    State.Alike d m { s with branches := inner ++ d.outer }
      { t with branches := inner ++ d.outer' } :=
  { h with branches := ⟨inner, length, rfl, rfl⟩ }

namespace Action

variable {α β : Type} {R R' R'' : State → State → Prop}

/-- Where the action succeeds in the first of two related states it succeeds in the second, with
the same value. -/
def Transfers (R R' : State → State → Prop) (m : Action α) : Prop :=
  ∀ s t, R s t → ∀ x s', m s = .ok x s' → ∃ t', m t = .ok x t' ∧ R' s' t'

namespace Transfers

variable {m m' : Action α} {f : α → Action β}

theorem pure (x : α) : Transfers R R (Pure.pure x : Action α) := by
  intro s t h y s' run
  cases run
  exact ⟨t, rfl, h⟩

theorem bind (first : Transfers R R' m) (second : ∀ x, Transfers R' R'' (f x)) :
    Transfers R R'' (m >>= f) := by
  intro s t h y s'' run
  obtain ⟨x, s', runFirst, runSecond⟩ := Action.bind_eq_ok_iff.mp run
  obtain ⟨t', firstT, h'⟩ := first s t h x s' runFirst
  obtain ⟨t'', secondT, h''⟩ := second x s' t' h' y s'' runSecond
  exact ⟨t'', Action.bind_eq_ok_iff.mpr ⟨x, t', firstT, secondT⟩, h''⟩

/-- A last step that only reports does so in both states. -/
theorem reports {g : α → β} (h : Transfers R R' m) :
    Transfers R R' (m >>= fun x => Pure.pure (g x)) :=
  h.bind fun _ => pure _

theorem throw (e : Error) : Transfers R R' (MonadExcept.throw e : Action α) := by
  intro s t _ x s' run
  cases run

theorem ite {c : Prop} [Decidable c] (yes : Transfers R R' m) (no : Transfers R R' m') :
    Transfers R R' (if c then m else m') := by
  split
  · exact yes
  · exact no

theorem modify {g : State → State} (h : ∀ s t, R s t → R' (g s) (g t)) :
    Transfers R R' (modify g) := by
  intro s t related x s' run
  cases run
  exact ⟨g t, rfl, h s t related⟩

/-- What reads the state must see the same in related states. -/
theorem read {f : State → Action β} (same : ∀ s t, R s t → f s = f t)
    (each : ∀ s, Transfers R R' (f s)) : Transfers R R' (get >>= f) := by
  intro s t h y s' run
  have run' : f s s = .ok y s' := run
  obtain ⟨t', runT, h'⟩ := each s s t h y s' run'
  rw [same s t h] at runT
  exact ⟨t', runT, h'⟩

theorem ofExcept (e : Except Error α) : Transfers R R (Action.ofExcept e) := by
  cases e with
  | error e => exact throw e
  | ok x => exact pure x

theorem push (item : Bytes) :
    Transfers (State.Alike d n) (State.Alike d n) (Action.push item) := by
  apply modify
  intro s t h
  exact { h with stack := congrArg (item :: ·) h.stack }

end Transfers
end Action

open LedgerScript.Action (Transfers)

namespace Call

variable (call : Call)

theorem fail_transfers {α : Type} {R R' : State → State → Prop} (fault : OperationFault) :
    Transfers R R' (call.fail fault : Action α) := Transfers.throw _

theorem require_transfers (k : Nat) :
    Transfers (State.Alike d n) (State.Alike d n) (call.require k) := by
  intro s t h x s' run
  by_cases missing : s.stack.length < k
  · simp only [require, if_pos missing, reduceCtorEq] at run
  · simp only [require, if_neg missing] at run
    cases run
    have present : ¬t.stack.length < k := by
      rw [h.stack, List.length_append]
      omega
    exact ⟨t, by simp only [require, if_neg present], h⟩

theorem pop_transfers : Transfers (State.Alike d n) (State.Alike d n) call.pop := by
  intro s t h x s' run
  obtain ⟨rest, found, rfl⟩ := pop_eq_ok_iff.mp run
  have stack := h.stack
  rw [found, List.cons_append] at stack
  exact ⟨_, pop_eq_ok_iff.mpr ⟨_, stack, rfl⟩, { h with stack := rfl }⟩

theorem top_transfers : Transfers (State.Alike d n) (State.Alike d n) call.top := by
  intro s t h x s' run
  obtain ⟨⟨rest, found⟩, rfl⟩ := top_eq_ok_iff.mp run
  have stack := h.stack
  rw [found, List.cons_append] at stack
  exact ⟨t, top_eq_ok_iff.mpr ⟨⟨_, stack⟩, rfl⟩, h⟩

theorem popMany_transfers (k : Nat) :
    Transfers (State.Alike d n) (State.Alike d n) (call.popMany k) := by
  induction k with
  | zero => exact Transfers.pure []
  | succ k ih =>
    exact Transfers.bind call.pop_transfers fun _ => Transfers.reports ih

theorem popNumber_transfers : Transfers (State.Alike d n) (State.Alike d n) call.popNumber := by
  apply Transfers.bind call.pop_transfers
  intro item
  cases Script.toNumber Limits.numberSize item with
  | ok n => exact Transfers.pure n
  | error e => exact Transfers.throw e

/-- An index that is in the stack finds the same item where there are others below. -/
theorem popIndex_transfers : Transfers (State.Alike d n) (State.Alike d n) call.popIndex := by
  rintro s t h ⟨i, item⟩ s' run
  obtain ⟨number, found⟩ := popIndex_eq_ok_iff.mp run
  obtain ⟨t', numberT, h'⟩ := call.popNumber_transfers s t h _ s' number
  have inRange := (List.getElem?_eq_some_iff.mp found).1
  have foundT : t'.stack[i]? = some item := by
    rw [h'.stack, List.getElem?_append_left inRange, found]
  exact ⟨t', popIndex_eq_ok_iff.mpr ⟨numberT, foundT⟩, h'⟩

end Call
end LedgerScript
