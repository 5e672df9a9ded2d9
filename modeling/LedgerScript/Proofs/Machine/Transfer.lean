import LedgerScript.Proofs.Machine.Alike

namespace LedgerScript

open LedgerScript.Action (Transfers)

variable {d : Difference} {n : Nat} {s t : State}

/-- A branch is opened in both states, taken or not taken in both. -/
theorem State.Alike.opened {taken : Bool} (h : s.Alike d n t) :
    State.Alike d (n + 1) { s with branches := taken :: s.branches }
      { t with branches := taken :: t.branches } := by
  obtain ⟨inner, rfl, hs, ht⟩ := h.branches
  rw [hs, ht]
  exact h.withBranches (taken :: inner) rfl

namespace Call

variable (call : Call)

theorem pushData_transfers : Transfers (State.Alike d n) (State.Alike d n) call.pushData :=
  Transfers.reports (Transfers.push _)

theorem pushNumber_transfers : Transfers (State.Alike d n) (State.Alike d n) call.pushNumber :=
  Transfers.reports (Transfers.push _)

theorem upgradable_transfers : Transfers (State.Alike d n) (State.Alike d n) call.upgradable :=
  Transfers.ite (call.fail_transfers _) (Transfers.pure _)

theorem branch_transfers (negated : Bool) :
    Transfers (State.Alike d n) (State.Alike d (n + 1)) (call.branch negated) := by
  refine Transfers.read (fun s t h => by rw [h.isExecuting]) fun s => Transfers.ite ?_ ?_
  · apply Transfers.bind call.pop_transfers
    intro item
    exact Transfers.reports (Transfers.modify fun _ _ h => h.opened)
  · exact Transfers.reports (Transfers.modify fun _ _ h => h.opened)

theorem orElse_transfers (inside : n = 0 → d.outer = []) :
    Transfers (State.Alike d n) (State.Alike d n) call.orElse := by
  intro s t h report s' run
  obtain ⟨taken, outer, found, rfl, rfl⟩ := orElse_eq_ok_iff.mp run
  obtain ⟨inner, length, hs, ht⟩ := h.branches
  obtain ⟨rfl, reached⟩ | ⟨inner, rfl, rfl⟩ := List.append_eq_cons_iff.mp (hs.symm.trans found)
  · rw [inside length.symm] at reached
    cases reached
  · have alike := h.withBranches ((!taken) :: inner) length
    rw [List.cons_append, List.cons_append] at alike
    exact ⟨_, orElse_eq_ok_iff.mpr ⟨taken, inner ++ d.outer', ht, rfl, by rw [alike.isExecuting]⟩,
      alike⟩

theorem endBranch_transfers (inside : n = 0 → d.outer = []) :
    Transfers (State.Alike d n) (State.Alike d (n - 1)) call.endBranch := by
  intro s t h report s' run
  obtain ⟨taken, outer, found, rfl, rfl⟩ := endBranch_eq_ok_iff.mp run
  obtain ⟨inner, length, hs, ht⟩ := h.branches
  obtain ⟨rfl, reached⟩ | ⟨inner, rfl, rfl⟩ := List.append_eq_cons_iff.mp (hs.symm.trans found)
  · rw [inside length.symm] at reached
    cases reached
  · have closed : inner.length = n - 1 := by rw [← length, List.length_cons, Nat.add_sub_cancel]
    exact ⟨_, endBranch_eq_ok_iff.mpr ⟨taken, _, ht, rfl, rfl⟩, h.withBranches inner closed⟩

theorem verify_transfers : Transfers (State.Alike d n) (State.Alike d n) call.verify := by
  refine Transfers.bind call.top_transfers fun item => Transfers.ite ?_ (call.fail_transfers _)
  exact Transfers.reports call.pop_transfers

theorem toAlt_transfers : Transfers (State.Alike d n) (State.Alike d n) call.toAlt := by
  apply Transfers.bind call.pop_transfers
  intro item
  apply Transfers.reports
  apply Transfers.modify
  intro s t h
  exact { h with alt := congrArg (item :: ·) h.alt }

theorem fromAlt_transfers : Transfers (State.Alike d n) (State.Alike d n) call.fromAlt := by
  intro s t h report s' run
  obtain ⟨item, rest, found, rfl, rfl⟩ := fromAlt_eq_ok_iff.mp run
  have alike : State.Alike d n { s with alt := rest, stack := item :: s.stack }
      { t with alt := rest, stack := item :: t.stack } :=
    { h with alt := rfl, stack := congrArg (item :: ·) h.stack }
  exact ⟨_, fromAlt_eq_ok_iff.mpr ⟨item, rest, h.alt.trans found, rfl, rfl⟩, alike⟩

theorem dupIfTrue_transfers : Transfers (State.Alike d n) (State.Alike d n) call.dupIfTrue := by
  refine Transfers.bind call.top_transfers fun item => Transfers.ite ?_ (Transfers.pure _)
  exact Transfers.reports (Transfers.push item)

/-- The depth itself is seen, so nothing may be below. -/
theorem depth_transfers (shallow : d.below = []) :
    Transfers (State.Alike d n) (State.Alike d n) Call.depth := by
  refine Transfers.read (fun s t h => ?_) fun s => ?_
  · rw [h.stack, shallow, List.append_nil]
  · exact Transfers.reports (Transfers.push _)

theorem pick_transfers : Transfers (State.Alike d n) (State.Alike d n) call.pick :=
  Transfers.bind call.popIndex_transfers fun _ => Transfers.reports (Transfers.push _)

/-- An index that is in the stack is taken out of the same place where there are others below. -/
theorem roll_transfers : Transfers (State.Alike d n) (State.Alike d n) call.roll := by
  intro s t h report s' run
  obtain ⟨⟨i, item⟩, s₁, found, moved⟩ := Action.bind_eq_ok_iff.mp run
  cases moved
  obtain ⟨t₁, foundT, alike⟩ := call.popIndex_transfers s t h _ s₁ found
  have inRange : i < s₁.stack.length :=
    (List.getElem?_eq_some_iff.mp (popIndex_eq_ok_iff.mp found).2).1
  refine ⟨{ t₁ with stack := item :: t₁.stack.eraseIdx i },
    Action.bind_eq_ok_iff.mpr ⟨_, t₁, foundT, rfl⟩, { alike with stack := ?_ }⟩
  rw [alike.stack, List.eraseIdx_append_of_lt_length inRange]
  rfl

theorem size_transfers : Transfers (State.Alike d n) (State.Alike d n) call.size :=
  Transfers.bind call.top_transfers fun _ => Transfers.reports (Transfers.push _)

theorem equal_transfers (verifying : Bool) :
    Transfers (State.Alike d n) (State.Alike d n) (call.equal verifying) := by
  apply Transfers.bind (call.require_transfers 2)
  intro _
  apply Transfers.bind call.pop_transfers
  intro right
  apply Transfers.bind call.pop_transfers
  intro left
  apply Transfers.ite
  · exact Transfers.ite (Transfers.pure _) (call.fail_transfers _)
  · exact Transfers.reports (Transfers.push _)

theorem unary_transfers (f : UnaryNumber) :
    Transfers (State.Alike d n) (State.Alike d n) (call.unary f) :=
  Transfers.bind call.popNumber_transfers fun _ => Transfers.reports (Transfers.push _)

theorem binary_transfers (f : BinaryNumber) :
    Transfers (State.Alike d n) (State.Alike d n) (call.binary f) := by
  apply Transfers.bind (call.require_transfers 2)
  intro _
  apply Transfers.bind call.popNumber_transfers
  intro b
  apply Transfers.bind call.popNumber_transfers
  intro a
  exact Transfers.reports (Transfers.push _)

theorem verifyEqualNumbers_transfers :
    Transfers (State.Alike d n) (State.Alike d n) call.verifyEqualNumbers := by
  apply Transfers.bind (call.require_transfers 2)
  intro _
  apply Transfers.bind call.popNumber_transfers
  intro b
  apply Transfers.bind call.popNumber_transfers
  intro a
  exact Transfers.ite (Transfers.pure _) (call.fail_transfers _)

theorem within_transfers : Transfers (State.Alike d n) (State.Alike d n) call.within := by
  apply Transfers.bind (call.require_transfers 3)
  intro _
  apply Transfers.bind call.popNumber_transfers
  intro upper
  apply Transfers.bind call.popNumber_transfers
  intro lower
  apply Transfers.bind call.popNumber_transfers
  intro x
  exact Transfers.reports (Transfers.push _)

theorem digest_transfers (f : ItemDigest) :
    Transfers (State.Alike d n) (State.Alike d n) (call.digest f) :=
  Transfers.bind call.pop_transfers fun _ => Transfers.reports (Transfers.push _)

theorem codeSeparator_transfers :
    Transfers (State.Alike d n) (State.Alike d n) call.codeSeparator := by
  apply Transfers.reports
  apply Transfers.modify
  intro s t h
  exact { h with codeStart := rfl }

theorem checkSigResult_transfers :
    Transfers (State.Alike d n) (State.Alike d n) call.checkSigResult := by
  apply Transfers.bind (call.require_transfers 2)
  intro _
  apply Transfers.bind call.pop_transfers
  intro key
  apply Transfers.bind call.pop_transfers
  intro signature
  apply Transfers.read (fun s t h => by rw [h.codeStart])
  intro s
  exact Transfers.bind (Transfers.ofExcept _) fun code => Transfers.ofExcept _

theorem checkSig_transfers (verifying : Bool) :
    Transfers (State.Alike d n) (State.Alike d n) (call.checkSig verifying) := by
  refine Transfers.bind call.checkSigResult_transfers fun valid => Transfers.ite ?_ ?_
  · exact Transfers.ite (Transfers.pure _) (call.fail_transfers _)
  · exact Transfers.reports (Transfers.push _)

theorem popCount_transfers (what : String) (most : Nat) :
    Transfers (State.Alike d n) (State.Alike d n) (call.popCount what most) :=
  Transfers.bind call.popNumber_transfers fun _ =>
    Transfers.ite (call.fail_transfers _) (Transfers.pure _)

theorem countKeys_transfers (keys : Nat) :
    Transfers (State.Alike d n) (State.Alike d n) (call.countKeys keys) := by
  intro s t h x s' run
  have operations := h.operations
  rw [countKeys_eq] at run
  by_cases exceeds : Limits.operations < s.operations + keys
  · rw [if_pos exceeds] at run
    cases run
  · rw [if_neg exceeds] at run
    cases run
    have fits : ¬Limits.operations < t.operations + keys := by omega
    have alike : State.Alike d n { s with operations := s.operations + keys }
        { t with operations := t.operations + keys } :=
      { h with operations := by dsimp only; omega }
    exact ⟨_, by rw [countKeys_eq, if_neg fits], alike⟩

theorem checkMultiSigResult_transfers :
    Transfers (State.Alike d n) (State.Alike d n) call.checkMultiSigResult := by
  apply Transfers.bind (call.popCount_transfers _ _)
  intro keyCount
  apply Transfers.bind (call.countKeys_transfers keyCount)
  intro _
  apply Transfers.bind (call.require_transfers keyCount)
  intro _
  apply Transfers.bind (call.popMany_transfers keyCount)
  intro keys
  apply Transfers.bind (call.popCount_transfers _ _)
  intro signatureCount
  apply Transfers.bind (call.require_transfers signatureCount)
  intro _
  apply Transfers.bind (call.popMany_transfers signatureCount)
  intro signatures
  apply Transfers.bind call.pop_transfers
  intro _
  apply Transfers.read (fun s t h => by rw [h.codeStart])
  intro s
  apply Transfers.bind (Transfers.ofExcept _)
  intro code
  exact Transfers.reports (Transfers.ofExcept _)

theorem checkMultiSig_transfers (verifying : Bool) :
    Transfers (State.Alike d n) (State.Alike d n) (call.checkMultiSig verifying) := by
  refine Transfers.bind call.checkMultiSigResult_transfers fun (valid, m, k) => Transfers.ite ?_ ?_
  · exact Transfers.ite (Transfers.pure _) (call.fail_transfers _)
  · exact Transfers.reports (Transfers.push _)

theorem checkLockTime_transfers (optional : Bool) :
    Transfers (State.Alike d n) (State.Alike d n) (call.checkLockTime optional) := by
  refine Transfers.ite call.upgradable_transfers ?_
  apply Transfers.bind call.top_transfers
  intro item
  apply Transfers.bind (Transfers.ofExcept _)
  intro lock
  exact Transfers.reports (Transfers.ofExcept _)

end Call

theorem StackMove.run_transfers (move : StackMove) (call : Call) :
    Transfers (State.Alike d n) (State.Alike d n) (move.run call) := by
  intro s t h report s' run
  unfold StackMove.run at run ⊢
  cases moved : move.apply s.stack with
  | none =>
    rw [moved] at run
    cases run
  | some result =>
    rw [moved] at run
    cases run
    rw [h.stack, StackMove.apply_append moved d.below]
    exact ⟨_, rfl, { h with stack := rfl }⟩

/-- How many branches are open after a behaviour where so many were before. -/
def Handler.nest : Handler → Nat → Nat
  | branch _, n => n + 1
  | endBranch, n => n - 1
  | _, n => n

/-- **What succeeds in a state succeeds in every state alike to it**, for every behaviour but the
depth, which must not have items below, and as long as none of the outer branches is reached. -/
theorem Handler.run_transfers (handler : Handler) (call : Call)
    (shallow : handler = .depth → d.below = [])
    (inside : handler = .orElse ∨ handler = .endBranch → n = 0 → d.outer = []) :
    Transfers (State.Alike d n) (State.Alike d (handler.nest n)) (handler.run call) := by
  cases handler with
  | pushData => exact call.pushData_transfers
  | pushNumber => exact call.pushNumber_transfers
  | nop => exact Transfers.pure _
  | upgradable => exact call.upgradable_transfers
  | reserved | disabled | unspendable => exact call.fail_transfers _
  | branch negated => exact call.branch_transfers negated
  | orElse => exact call.orElse_transfers (inside (.inl rfl))
  | endBranch => exact call.endBranch_transfers (inside (.inr rfl))
  | verify => exact call.verify_transfers
  | toAlt => exact call.toAlt_transfers
  | fromAlt => exact call.fromAlt_transfers
  | move m => exact m.run_transfers call
  | dupIfTrue => exact call.dupIfTrue_transfers
  | depth => exact Call.depth_transfers (shallow rfl)
  | pick => exact call.pick_transfers
  | roll => exact call.roll_transfers
  | size => exact call.size_transfers
  | equal verifying => exact call.equal_transfers verifying
  | unary f => exact call.unary_transfers f
  | binary f => exact call.binary_transfers f
  | verifyEqualNumbers => exact call.verifyEqualNumbers_transfers
  | within => exact call.within_transfers
  | digest f => exact call.digest_transfers f
  | codeSeparator => exact call.codeSeparator_transfers
  | checkSig verifying => exact call.checkSig_transfers verifying
  | checkMultiSig verifying => exact call.checkMultiSig_transfers verifying
  | checkLockTime optional => exact call.checkLockTime_transfers optional

theorem State.Alike.count (h : s.Alike d n t) (op : Operation) :
    (s.count op).Alike d n (t.count op) := by
  have operations := h.operations
  unfold State.count
  split
  · exact { h with operations := by dsimp only; omega }
  · exact h

/-- The second state has counted no more operations than the first. -/
theorem State.Alike.fits (h : s.Alike d n t) {op : Operation} (fits : ¬s.Exceeds op) :
    ¬t.Exceeds op := by
  have operations := h.operations
  unfold State.Exceeds at fits ⊢
  grind

theorem State.Alike.depth (h : s.Alike d n t) : t.depth = s.depth + d.below.length := by
  simp only [State.depth, h.stack, h.alt, List.length_append]
  omega

/-- **An operation that succeeds in a state succeeds in every state alike to it**, if that one has
room for the items below and the operation does not look at them. -/
theorem execute_transfers {table : Table} {spend : Spend} {script : Script} {op : Operation}
    {s' : State} {report : String} (h : s.Alike d n t)
    (run : execute table spend script op s = .ok report s')
    (shallow : table.dispatched? op s = some .depth → d.below = [])
    (inside : table.dispatched? op s = some .orElse ∨ table.dispatched? op s = some .endBranch →
      n = 0 → d.outer = [])
    (room : s'.depth ≤ Limits.stackItems → d.below.length + s'.depth ≤ Limits.stackItems) :
    ∃ t', execute table spend script op t = .ok report t' ∧
      s'.Alike d ((table.dispatched? op s).elim n (·.nest n)) t' := by
  obtain ⟨fits, allowed, ran⟩ := execute_eq_ok_iff.mp run
  have executing := h.isExecuting
  unfold Table.dispatched? at shallow inside ⊢
  by_cases runs : (s.isExecuting || Opcode.isConditional op.opcode) = true
  · simp only [runs, ↓reduceIte] at ran shallow inside ⊢
    obtain ⟨bound, entry, found, handled⟩ := dispatch_eq_ok_iff.mp ran
    simp only [found, Option.map_some, Option.some.injEq, Option.elim_some] at shallow inside ⊢
    obtain ⟨t', handledT, alike⟩ :=
      entry.handler.run_transfers _ shallow inside _ _ (h.count op) report s' handled
    have roomT : t'.depth ≤ Limits.stackItems := by
      rw [alike.depth, Nat.add_comm]
      exact room bound
    have dispatched := dispatch_eq_ok_iff.mpr ⟨roomT, entry, found, handledT⟩
    refine ⟨t', execute_eq_ok_iff.mpr ⟨h.fits fits, allowed, ?_⟩, alike⟩
    rw [if_pos (executing ▸ runs)]
    exact dispatched
  · simp only [runs] at ran ⊢
    obtain ⟨rfl, rfl⟩ := ran
    refine ⟨t.count op, execute_eq_ok_iff.mpr ⟨h.fits fits, allowed, ?_⟩, h.count op⟩
    rw [if_neg (executing ▸ runs)]
    exact ⟨rfl, rfl⟩

end LedgerScript
