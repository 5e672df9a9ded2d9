import LedgerScript.Proofs.Machine.Keeping

namespace LedgerScript

theorem ItemDigest.length_apply_le (f : ItemDigest) (item : Bytes) :
    (f.apply item).length ≤ 520 := by
  cases f <;> simp [apply, Digest.hash160, Digest.hash256]

open LedgerScript.Action (Keeps Meets)

namespace Call

variable (call : Call)

theorem pushData_keeps (short : ∀ data, call.op.data = some data → data.length ≤ 520) :
    Keeps call.pushData fun _ => True := by
  apply Keeps.reports
  apply Keeps.push
  cases data : call.op.data with
  | none => exact Nat.zero_le _
  | some bytes => exact short bytes data

theorem pushNumber_keeps : Keeps call.pushNumber fun _ => True := by
  apply Keeps.reports
  apply Keeps.pushNumber
  have code := call.op.opcode.toNat_lt
  have bound : 2 ^ 8 + 0x50 < Bytes.modulus 8 := by decide
  have origin : Opcode.reserved.toNat = 0x50 := rfl
  omega

theorem upgradable_keeps : Keeps call.upgradable fun _ => True :=
  Keeps.ite (call.fail_keeps _) (Keeps.pure trivial)

theorem branch_keeps (negated : Bool) : Keeps (call.branch negated) fun _ => True :=
  Meets.branch call.pop_keeps.limits (fun _ _ hs => ⟨hs, trivial⟩) fun _ hs => ⟨hs, trivial⟩

theorem orElse_keeps : Keeps call.orElse fun _ => True :=
  Meets.orElse (fun _ _ _ hs _ => ⟨hs, trivial⟩) fun _ hs _ => hs.1

theorem endBranch_keeps : Keeps call.endBranch fun _ => True :=
  Meets.endBranch (fun _ _ _ hs _ => ⟨hs, trivial⟩) fun _ hs _ => hs.1

theorem verify_keeps : Keeps call.verify fun _ => True := by
  apply Keeps.bind call.top_keeps
  intro item _
  exact Keeps.ite (Keeps.reports call.pop_keeps) (call.fail_keeps _)

theorem toAlt_keeps : Keeps call.toAlt fun _ => True := by
  apply Keeps.bind call.pop_keeps
  intro item short
  apply Keeps.reports
  apply Keeps.modify
  intro s hs
  refine ⟨?_, hs.2⟩
  intro other member
  have := hs.1 other
  grind

theorem fromAlt_keeps : Keeps call.fromAlt fun _ => True := by
  refine Meets.fromAlt (fun s item rest hs found => ⟨⟨?_, hs.2⟩, trivial⟩) fun _ hs _ => hs.1
  intro other member
  apply hs.1 other
  rw [found]
  exact List.perm_middle.mem_iff.mpr member

theorem dupIfTrue_keeps : Keeps call.dupIfTrue fun _ => True := by
  apply Keeps.bind call.top_keeps
  intro item short
  exact Keeps.ite (Keeps.reports (Keeps.push short)) (Keeps.pure trivial)

/-- An item that is found in the stack is short. -/
theorem popIndex_keeps : Keeps call.popIndex fun found => found.2.length ≤ 520 := by
  refine Meets.popIndex call.popNumber_keeps.limits (fun s n item hs found => ⟨hs, ?_⟩)
    fun _ _ hs => hs.1
  exact hs.1 item (List.mem_append_left _ (List.mem_of_getElem? found))

theorem pick_keeps : Keeps call.pick fun _ => True :=
  Keeps.bind call.popIndex_keeps fun _ short => Keeps.reports (Keeps.push short)

theorem roll_keeps : Keeps call.roll fun _ => True := by
  apply Keeps.bind call.popIndex_keeps
  rintro ⟨n, item⟩ short
  apply Keeps.reports
  apply Keeps.modify
  intro s hs
  refine ⟨?_, hs.2⟩
  intro other member
  have := hs.1 other
  have := List.mem_of_mem_eraseIdx (a := other) (l := s.stack) (i := n)
  grind

theorem size_keeps : Keeps call.size fun _ => True := by
  apply Keeps.bind call.top_keeps
  intro item short
  apply Keeps.reports
  apply Keeps.pushNumber
  have bound : 520 < Bytes.modulus 8 := by decide
  omega

theorem equal_keeps (verifying : Bool) : Keeps (call.equal verifying) fun _ => True := by
  apply Keeps.bind (call.require_keeps 2)
  intro _ _
  apply Keeps.bind call.pop_keeps
  intro right _
  apply Keeps.bind call.pop_keeps
  intro left _
  apply Keeps.ite
  · exact Keeps.ite (Keeps.pure trivial) (call.fail_keeps _)
  · exact Keeps.reports (Keeps.pushBool _)

theorem unary_keeps (f : UnaryNumber) : Keeps (call.unary f) fun _ => True := by
  apply Keeps.bind call.popNumber_keeps
  intro a small
  have grow : Bytes.modulus 4 + 1 < Bytes.modulus 8 := by decide
  have result := f.natAbs_apply_le a
  exact Keeps.reports (Keeps.pushNumber (by omega))

theorem binary_keeps (f : BinaryNumber) : Keeps (call.binary f) fun _ => True := by
  apply Keeps.bind (call.require_keeps 2)
  intro _ _
  apply Keeps.bind call.popNumber_keeps
  intro b smallB
  apply Keeps.bind call.popNumber_keeps
  intro a smallA
  have grow : Bytes.modulus 4 + Bytes.modulus 4 + 1 < Bytes.modulus 8 := by decide
  have result := f.natAbs_apply_le a b
  exact Keeps.reports (Keeps.pushNumber (by omega))

theorem verifyEqualNumbers_keeps : Keeps call.verifyEqualNumbers fun _ => True := by
  apply Keeps.bind (call.require_keeps 2)
  intro _ _
  apply Keeps.bind call.popNumber_keeps
  intro b _
  apply Keeps.bind call.popNumber_keeps
  intro a _
  exact Keeps.ite (Keeps.pure trivial) (call.fail_keeps _)

theorem within_keeps : Keeps call.within fun _ => True := by
  apply Keeps.bind (call.require_keeps 3)
  intro _ _
  apply Keeps.bind call.popNumber_keeps
  intro _ _
  apply Keeps.bind call.popNumber_keeps
  intro _ _
  apply Keeps.bind call.popNumber_keeps
  intro _ _
  exact Keeps.reports (Keeps.pushBool _)

theorem digest_keeps (f : ItemDigest) : Keeps (call.digest f) fun _ => True := by
  apply Keeps.bind call.pop_keeps
  intro item _
  exact Keeps.reports (Keeps.push (f.length_apply_le item))

theorem codeSeparator_keeps : Keeps call.codeSeparator fun _ => True :=
  Keeps.reports (Keeps.modify fun _ hs => hs)

theorem checkSigResult_keeps : Keeps call.checkSigResult fun _ => True := by
  apply Keeps.bind (call.require_keeps 2)
  intro _ _
  apply Keeps.bind call.pop_keeps
  intro key _
  apply Keeps.bind call.pop_keeps
  intro signature _
  apply Keeps.read
  intro s _
  apply Keeps.bind (Keeps.ofExcept _)
  intro code _
  exact Keeps.ofExcept _

theorem checkSig_keeps (verifying : Bool) : Keeps (call.checkSig verifying) fun _ => True := by
  refine Keeps.bind call.checkSigResult_keeps fun valid _ => Keeps.ite ?_ ?_
  · exact Keeps.ite (Keeps.pure trivial) (call.fail_keeps _)
  · exact Keeps.reports (Keeps.pushBool _)

theorem popCount_keeps (what : String) (most : Nat) :
    Keeps (call.popCount what most) fun _ => True :=
  Meets.popCount (call.popNumber_keeps.weaken fun _ _ => trivial) fun _ _ hs => hs.1.1

/-- Only a failing check leaves more operations counted than are allowed. -/
theorem countKeys_keeps (keys : Nat) : Keeps (call.countKeys keys) fun _ => True :=
  Meets.countKeys (fun _ hs fits => ⟨⟨hs.1, fits⟩, trivial⟩) fun _ hs => hs.1

theorem checkMultiSigResult_keeps : Keeps call.checkMultiSigResult fun _ => True := by
  apply Keeps.bind (call.popCount_keeps _ _)
  intro keyCount _
  apply Keeps.bind (call.countKeys_keeps keyCount)
  intro _ _
  apply Keeps.bind (call.require_keeps keyCount)
  intro _ _
  apply Keeps.bind (call.popMany_keeps keyCount)
  intro keys _
  apply Keeps.bind (call.popCount_keeps _ _)
  intro signatureCount _
  apply Keeps.bind (call.require_keeps signatureCount)
  intro _ _
  apply Keeps.bind (call.popMany_keeps signatureCount)
  intro signatures _
  apply Keeps.bind call.pop_keeps
  intro _ _
  apply Keeps.read
  intro s _
  apply Keeps.bind (Keeps.ofExcept _)
  intro code _
  exact Keeps.reports (Keeps.ofExcept _)

theorem checkMultiSig_keeps (verifying : Bool) :
    Keeps (call.checkMultiSig verifying) fun _ => True := by
  apply Keeps.bind call.checkMultiSigResult_keeps
  rintro ⟨valid, m, n⟩ _
  apply Keeps.ite
  · exact Keeps.ite (Keeps.pure trivial) (call.fail_keeps _)
  · exact Keeps.reports (Keeps.pushBool _)

theorem checkLockTime_keeps (optional : Bool) :
    Keeps (call.checkLockTime optional) fun _ => True := by
  apply Keeps.ite call.upgradable_keeps
  apply Keeps.bind call.top_keeps
  intro item _
  apply Keeps.bind (Keeps.ofExcept _)
  intro lock _
  exact Keeps.reports (Keeps.ofExcept _)

end Call

theorem StackMove.mem_of_apply {move : StackMove} {stack stack' : List Bytes} {report : String}
    (h : move.apply stack = some (stack', report)) : ∀ item ∈ stack', item ∈ stack := by
  unfold apply at h
  split at h <;> simp only [Option.some.injEq, Prod.mk.injEq, reduceCtorEq] at h <;>
    obtain ⟨rfl, -⟩ := h <;> simp only [List.mem_cons] <;> grind

theorem StackMove.run_keeps (move : StackMove) (call : Call) :
    Keeps (move.run call) fun _ => True := by
  refine Meets.move (fun s stack report hs moved => ⟨⟨?_, hs.2⟩, trivial⟩) fun _ hs _ => hs.1
  intro item member
  have above := mem_of_apply moved item
  have := hs.1 item
  grind

theorem Action.Keeps.roomy {α : Type} {m : Action α} {p : α → Prop} (h : Keeps m p) :
    Meets (fun s => s.InLimits ∧ s.stack.length ≤ 1000) m (fun _ s => s.InLimits)
      fun _ s => s.ItemsShort :=
  Meets.mono h (fun _ before => before.1) (fun _ _ after => after.1) fun _ _ short => short

/-- **Every behaviour stays in the limits**, whichever code it is bound to, if the data that comes
with the code is short and the stack is no larger than is allowed. -/
theorem Handler.run_bounded (handler : Handler) (call : Call)
    (short : ∀ data, call.op.data = some data → data.length ≤ 520) :
    Meets (fun s => s.InLimits ∧ s.stack.length ≤ 1000) (handler.run call) (fun _ s => s.InLimits)
      fun _ s => s.ItemsShort := by
  cases handler with
  | pushData => exact (call.pushData_keeps short).roomy
  | pushNumber => exact call.pushNumber_keeps.roomy
  | nop => exact Meets.pure fun _ before => before.1
  | upgradable => exact call.upgradable_keeps.roomy
  | reserved | disabled | unspendable => exact Meets.throw fun _ before => before.1.1
  | branch negated => exact (call.branch_keeps negated).roomy
  | orElse => exact call.orElse_keeps.roomy
  | endBranch => exact call.endBranch_keeps.roomy
  | verify => exact call.verify_keeps.roomy
  | toAlt => exact call.toAlt_keeps.roomy
  | fromAlt => exact call.fromAlt_keeps.roomy
  | move m => exact (m.run_keeps call).roomy
  | dupIfTrue => exact call.dupIfTrue_keeps.roomy
  | depth =>
    -- only the depth of the stack is as large a number as the stack is
    refine Meets.read fun s before => ?_
    have bound : 1000 < Bytes.modulus 8 := by decide
    have small : (s.stack.length : Int).natAbs < Bytes.modulus 8 := by omega
    exact (Keeps.pushNumber small).reports.roomy
  | pick => exact call.pick_keeps.roomy
  | roll => exact call.roll_keeps.roomy
  | size => exact call.size_keeps.roomy
  | equal verifying => exact (call.equal_keeps verifying).roomy
  | unary f => exact (call.unary_keeps f).roomy
  | binary f => exact (call.binary_keeps f).roomy
  | verifyEqualNumbers => exact call.verifyEqualNumbers_keeps.roomy
  | within => exact call.within_keeps.roomy
  | digest f => exact (call.digest_keeps f).roomy
  | codeSeparator => exact call.codeSeparator_keeps.roomy
  | checkSig verifying => exact (call.checkSig_keeps verifying).roomy
  | checkMultiSig verifying => exact (call.checkMultiSig_keeps verifying).roomy
  | checkLockTime optional => exact (call.checkLockTime_keeps optional).roomy

end LedgerScript
