import LedgerScript.Proofs.Machine.Execution

namespace LedgerScript.Action

variable {α β : Type}

/-- Wherever `P` holds before, `Q` holds of the value and the state of a success, and `E` of the
error and the state of a failure. -/
def Meets (P : State → Prop) (m : Action α) (Q : α → State → Prop) (E : Error → State → Prop) :
    Prop :=
  ∀ s, P s → match m s with
    | .ok x s' => Q x s'
    | .error e s' => E e s'

namespace Meets

variable {P P' : State → Prop} {m m' : Action α} {f : α → Action β} {Q Q' : α → State → Prop}
  {R : β → State → Prop} {E E' : Error → State → Prop}

theorem of_ok (h : Meets P m Q E) {s s' : State} {x : α} (before : P s) (ran : m s = .ok x s') :
    Q x s' := by
  have after := h s before
  rwa [ran] at after

theorem of_error (h : Meets P m Q E) {s s' : State} {e : Error} (before : P s)
    (failed : m s = .error e s') : E e s' := by
  have after := h s before
  rwa [failed] at after

theorem mono (h : Meets P m Q E) (before : ∀ s, P' s → P s) (ok : ∀ x s, Q x s → Q' x s)
    (error : ∀ e s, E e s → E' e s) : Meets P' m Q' E' := by
  intro s now
  have after := h s (before s now)
  cases ran : m s with
  | ok x s' =>
    rw [ran] at after
    exact ok x s' after
  | error e s' =>
    rw [ran] at after
    exact error e s' after

/-- Only what an action does in the states that it may start from matters. -/
theorem congr (same : ∀ s, P s → m s = m' s) (h : Meets P m' Q E) : Meets P m Q E := by
  intro s before
  rw [same s before]
  exact h s before

/-- Two continuations do the same if they do so wherever the first action may lead. -/
theorem bind_congr {g : α → Action β} (first : Meets P m Q E)
    (same : ∀ x s, Q x s → f x s = g x s) {s : State} (before : P s) :
    (m >>= f) s = (m >>= g) s := by
  have h := first s before
  rw [bind_apply, bind_apply]
  cases ran : m s with
  | ok x s' =>
    rw [ran] at h
    exact same x s' h
  | error e s' => rfl

theorem pure {x : α} (h : ∀ s, P s → Q x s) : Meets P (Pure.pure x) Q E := h

theorem throw {e : Error} (h : ∀ s, P s → E e s) : Meets P (MonadExcept.throw e) Q E := h

theorem bind (first : Meets P m Q E) (second : ∀ x, Meets (Q x) (f x) R E) :
    Meets P (m >>= f) R E := by
  intro s before
  have h := first s before
  rw [bind_apply]
  cases ran : m s with
  | ok x s' =>
    rw [ran] at h
    exact second x s' h
  | error e s' =>
    rw [ran] at h
    exact h

/-- A last step that only reports. -/
theorem map {g : α → β} {R : State → Prop} (h : Meets P m (fun _ => R) E) :
    Meets P (m >>= fun x => Pure.pure (g x)) (fun _ => R) E :=
  h.bind fun _ => pure fun _ after => after

theorem ite {c : Prop} [Decidable c] (yes : Meets P m Q E) (no : Meets P m' Q E) :
    Meets P (if c then m else m') Q E := by
  split
  · exact yes
  · exact no

theorem modify {g : State → State} {R : State → Prop} (h : ∀ s, P s → R (g s)) :
    Meets P (modify g) (fun _ => R) E := h

/-- What depends on the state that is read may use what holds of that state. -/
theorem read {f : State → Action β} (h : ∀ s, P s → Meets P (f s) R E) :
    Meets P (get >>= f) R E := fun s before => h s before s before

theorem ofExcept {result : Except Error α} (ok : ∀ x, result = .ok x → ∀ s, P s → Q x s)
    (error : ∀ e, result = .error e → ∀ s, P s → E e s) :
    Meets P (Action.ofExcept result) Q E := by
  cases result with
  | error e => exact throw (error e rfl)
  | ok x => exact pure (ok x rfl)

theorem require {call : Call} {n : Nat} {R : State → Prop}
    (enough : ∀ s, P s → n ≤ s.stack.length → R s)
    (few : ∀ s, P s → s.stack.length < n → E (.underflow call.name n s.stack.length) s) :
    Meets P (call.require n) (fun _ => R) E := by
  intro s before
  by_cases missing : s.stack.length < n
  · simp only [Call.require, if_pos missing]
    exact few s before missing
  · simp only [Call.require, if_neg missing]
    exact enough s before (Nat.le_of_not_lt missing)

theorem pop {call : Call} {Q : Bytes → State → Prop}
    (some : ∀ s item rest, P s → s.stack = item :: rest → Q item { s with stack := rest })
    (none : ∀ s, P s → s.stack = [] → E (.underflow call.name 1 0) s) :
    Meets P call.pop Q E := by
  intro s before
  unfold Call.pop
  cases found : s.stack with
  | nil => exact none s before found
  | cons item rest => exact some s item rest before found

theorem top {call : Call} {Q : Bytes → State → Prop}
    (some : ∀ s item rest, P s → s.stack = item :: rest → Q item s)
    (none : ∀ s, P s → s.stack = [] → E (.underflow call.name 1 0) s) :
    Meets P call.top Q E := by
  intro s before
  unfold Call.top
  cases found : s.stack with
  | nil => exact none s before found
  | cons item rest => exact some s item rest before found

/-- What holds on while one item is taken holds on while several are. -/
theorem popMany {call : Call} (one : Meets P call.pop (fun _ => P) E) (n : Nat) :
    Meets P (call.popMany n) (fun _ => P) E := by
  induction n with
  | zero => exact pure fun _ h => h
  | succ n ih => exact one.bind fun _ => ih.map

/-- A number is taken off like any item, and may be refused then. -/
theorem popNumber {call : Call} {R : State → Prop} (taken : Meets P call.pop (fun _ => R) E)
    (long : ∀ size s, R s → E (.script (.numberTooLong size Limits.numberSize)) s) :
    Meets P call.popNumber (fun _ => R) E := by
  refine taken.bind fun item => ?_
  unfold Script.toNumber
  split
  · next n accepted =>
    exact pure fun _ after => after
  · next e refused =>
    split at refused <;> cases refused
    exact throw (long _)

/-- An index is taken as the number that it is, and an item is looked for below it. -/
theorem popIndex {call : Call} {P' : State → Prop} {Q : Nat × Bytes → State → Prop}
    (index : Meets P call.popNumber (fun _ => P') E)
    (found : ∀ s n item, P' s → s.stack[n]? = some item → Q (n, item) s)
    (missing : ∀ s fault, P' s → E (call.fault fault) s) : Meets P call.popIndex Q E := by
  intro s before
  have after := index s before
  rw [Call.popIndex_eq]
  cases ran : call.popNumber s with
  | error e s' => rwa [ran] at after
  | ok n s' =>
    rw [ran] at after
    dsimp only
    cases place : if 0 ≤ n then s'.stack[n.toNat]? else none with
    | none => exact missing s' _ after
    | some item =>
      split at place
      · exact found s' n.toNat item after place
      · cases place

/-- A count is taken as the number that it is. -/
theorem popCount {call : Call} {what : String} {most : Nat} {R : State → Prop}
    (number : Meets P call.popNumber (fun _ => R) E)
    (refused : ∀ s fault, R s → E (call.fault fault) s) :
    Meets P (call.popCount what most) (fun _ => R) E :=
  number.bind fun _ => ite (throw fun s => refused s _) (pure fun _ after => after)

/-- Keys are counted in any case, and the limit is looked at afterwards. -/
theorem countKeys {call : Call} {keys : Nat} {R : State → Prop}
    (fits : ∀ s, P s → s.operations + keys ≤ Limits.operations →
      R { s with operations := s.operations + keys })
    (exceeds : ∀ s, P s →
      E (call.fault .tooManyOperations) { s with operations := s.operations + keys }) :
    Meets P (call.countKeys keys) (fun _ => R) E := by
  intro s before
  rw [Call.countKeys_eq]
  by_cases large : Limits.operations < s.operations + keys
  · rw [if_pos large]
    exact exceeds s before
  · rw [if_neg large]
    exact fits s before (Nat.le_of_not_lt large)

theorem branch {call : Call} {negated : Bool} {P' R : State → Prop}
    (popped : Meets P call.pop (fun _ => P') E)
    (inside : ∀ s taken, P' s → R { s with branches := taken :: s.branches })
    (outside : ∀ s, P s → R { s with branches := false :: s.branches }) :
    Meets P (call.branch negated) (fun _ => R) E :=
  read fun _ _ =>
    ite (popped.bind fun _ => map (modify fun s => inside s _)) (map (modify outside))

theorem orElse {call : Call} {R : State → Prop}
    (switched : ∀ s taken outer, P s → s.branches = taken :: outer →
      R { s with branches := (!taken) :: outer })
    (none : ∀ s, P s → s.branches = [] → E (.script .elseWithoutBranch) s) :
    Meets P call.orElse (fun _ => R) E := by
  intro s before
  rw [Call.orElse, get_bind]
  cases found : s.branches with
  | nil => exact none s before found
  | cons taken outer => exact switched s taken outer before found

theorem endBranch {call : Call} {R : State → Prop}
    (closed : ∀ s taken outer, P s → s.branches = taken :: outer → R { s with branches := outer })
    (none : ∀ s, P s → s.branches = [] → E (call.fault .endWithoutBranch) s) :
    Meets P call.endBranch (fun _ => R) E := by
  intro s before
  rw [Call.endBranch, get_bind]
  cases found : s.branches with
  | nil => exact none s before found
  | cons taken outer => exact closed s taken outer before found

theorem fromAlt {call : Call} {R : State → Prop}
    (moved : ∀ s item rest, P s → s.alt = item :: rest →
      R { s with alt := rest, stack := item :: s.stack })
    (none : ∀ s, P s → s.alt = [] → E (.underflow call.name 1 0) s) :
    Meets P call.fromAlt (fun _ => R) E := by
  intro s before
  rw [Call.fromAlt, get_bind]
  cases found : s.alt with
  | nil => exact none s before found
  | cons item rest => exact moved s item rest before found

theorem move {move : StackMove} {call : Call} {Q : String → State → Prop}
    (moved : ∀ s stack report, P s → move.apply s.stack = some (stack, report) →
      Q report { s with stack := stack })
    (few : ∀ s, P s → ∀ needed, E (.underflow call.name needed s.stack.length) s) :
    Meets P (move.run call) Q E := by
  intro s before
  unfold StackMove.run
  cases found : move.apply s.stack with
  | none => exact few s before _
  | some result => exact moved s _ _ before found

theorem checkDepth {R : State → Prop} (fits : ∀ s, P s → s.depth ≤ Limits.stackItems → R s)
    (large : ∀ s, P s → E (.script (.stackTooLarge s.depth)) s) :
    Meets P LedgerScript.checkDepth (fun _ => R) E := by
  intro s before
  by_cases exceeds : Limits.stackItems < s.depth
  · simp only [LedgerScript.checkDepth, if_pos exceeds]
    exact large s before
  · simp only [LedgerScript.checkDepth, if_neg exceeds]
    exact fits s before (Nat.le_of_not_lt exceeds)

end Meets
end LedgerScript.Action
