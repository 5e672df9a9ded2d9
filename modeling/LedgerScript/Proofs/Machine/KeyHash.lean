import LedgerScript.Chain.Preset
import LedgerScript.Proofs.Machine.Effects
import LedgerScript.Proofs.Machine.Evaluation
import LedgerScript.Proofs.Script.Parts

namespace LedgerScript

/-- A state with nothing but items on the main stack and operations counted. -/
def State.onlyStack (stack : List Bytes) (operations : Nat) : State :=
  { State.empty with stack := stack, operations := operations }

namespace PayToKeyHash

/-- `OP_DUP OP_HASH160`, the hash, `OP_EQUALVERIFY OP_CHECKSIG`. -/
def script (hash : Bytes) : Script :=
  [Opcode.dup, Opcode.hash160] ++ Script.push hash ++ [Opcode.equalVerify, Opcode.checkSig]

/-- The script by operations. -/
def parts (hash : Bytes) : List Bytes :=
  [[Opcode.dup], [Opcode.hash160], Script.push hash, [Opcode.equalVerify], [Opcode.checkSig]]

/-- What a signature covers: the operations that do not push the signature itself. -/
def signedCode (hash signature : Bytes) : Script :=
  ((parts hash).filter (· ≠ Script.push signature)).flatten

/-- The operation that checks the signature. -/
def checkOperation : Operation := ⟨24, 25, Opcode.checkSig, none⟩

def check (hash : Bytes) (spend : Spend) : Call :=
  ⟨checkOperation, "OP_CHECKSIG", script hash, spend⟩

/-- The operations that compare the hash. -/
def prologue (hash : Bytes) : List Operation :=
  [⟨0, 1, Opcode.dup, none⟩, ⟨1, 2, Opcode.hash160, none⟩, ⟨2, 23, 20, some hash⟩,
    ⟨23, 24, Opcode.equalVerify, none⟩]

theorem flatten_parts (hash : Bytes) : (parts hash).flatten = script hash := by
  simp [parts, script]

theorem parts_placed {hash : Bytes} (size : hash.length = 20) :
    Script.Parts 0 (parts hash) (prologue hash ++ [checkOperation]) := by
  have short : hash.length ≤ 0x4b := by rw [size]; decide
  have pushed := (Script.spells_push_of_short short).1
  have length : (Script.push hash).length = 21 := by rw [Script.length_push, size]; rfl
  have code : UInt8.ofNat hash.length = 20 := by rw [size]; rfl
  rw [code] at pushed
  have later : Script.Parts 23 [[Opcode.equalVerify], [Opcode.checkSig]]
      [⟨23, 24, Opcode.equalVerify, none⟩, checkOperation] :=
    .cons (.plain rfl) (.cons (.plain rfl) .nil)
  have rest : Script.Parts 2 [Script.push hash, [Opcode.equalVerify], [Opcode.checkSig]]
      (⟨2, 2 + (Script.push hash).length, 20, some hash⟩ ::
        [⟨23, 24, Opcode.equalVerify, none⟩, checkOperation]) :=
    .cons pushed (by rw [length]; exact later)
  rw [length] at rest
  exact .cons (.plain rfl) (.cons (.plain rfl) rest)

theorem operationsToRun_script {hash : Bytes} (size : hash.length = 20) :
    Run.operationsToRun (script hash) = .ok (prologue hash ++ [checkOperation]) := by
  have length : (script hash).length = 25 := by
    simp [script, Script.length_push, size]
  have short : ¬Limits.scriptSize < (script hash).length := by rw [length]; decide
  rw [Run.operationsToRun, if_neg short, ← flatten_parts]
  exact (parts_placed size).operationsFrom

theorem signedCode_eq {hash : Bytes} (size : hash.length = 20) (spend : Spend)
    (signature : Bytes) :
    (check hash spend).signedCode 0 [signature] = .ok (signedCode hash signature) := by
  have some : Script.push signature ≠ [] := by
    intro none
    have length := Script.length_push signature
    rw [none, List.length_nil] at length
    split_ifs at length
  have deleted := (parts_placed size).findAndDelete some
  rw [flatten_parts] at deleted
  simp only [Call.signedCode, check, List.drop_zero, List.foldlM_cons, List.foldlM_nil, deleted]
  rfl

section

variable {hash : Bytes} {spend : Spend} {code : Script} {stack : List Bytes} {s' : State}

/-- What an operation does to a stack with nothing around it. -/
theorem execute_leads_iff {op : Operation} {name : String} {handler : Handler} {k : Nat}
    (found : Table.standard.entry? op.opcode = some ⟨name, handler⟩)
    (allowed : refuseAnywhere .standard op = .ok ()) (few : k < Limits.operations) :
    (execute .standard spend code op).Leads (.onlyStack stack k) s' ↔
      s'.depth ≤ Limits.stackItems ∧ (handler.run ⟨op, name, code, spend⟩).Leads
        (.onlyStack stack (if Opcode.isCounted op.opcode then k + 1 else k)) s' := by
  have fits : ¬(State.onlyStack stack k).Exceeds op := by
    rintro ⟨-, exceeds⟩
    exact absurd (show Limits.operations < k + 1 from exceeds) (by omega)
  have counted : (State.onlyStack stack k).count op =
      .onlyStack stack (if Opcode.isCounted op.opcode then k + 1 else k) := by
    unfold State.count
    split <;> rfl
  rw [LedgerScript.execute_leads_iff rfl found, counted]
  exact ⟨fun h => h.2.2, fun h => ⟨fits, allowed, h⟩⟩

theorem dup_leads_iff (room : stack.length < Limits.stackItems) :
    (execute .standard spend code ⟨0, 1, Opcode.dup, none⟩).Leads (.onlyStack stack 0) s' ↔
      ∃ key rest, stack = key :: rest ∧ s' = .onlyStack (key :: key :: rest) 1 := by
  rw [execute_leads_iff rfl rfl (by decide)]
  constructor
  · rintro ⟨-, ran⟩
    exact StackMove.dup_leads_iff.mp ran
  · rintro ⟨key, rest, rfl, rfl⟩
    exact ⟨room, StackMove.dup_leads_iff.mpr ⟨key, rest, rfl, rfl⟩⟩

theorem hash160_leads_iff {item : Bytes} {rest : List Bytes}
    (room : rest.length < Limits.stackItems) :
    (execute .standard spend code ⟨1, 2, Opcode.hash160, none⟩).Leads
        (.onlyStack (item :: rest) 1) s' ↔
      s' = .onlyStack (Digest.hash160 item :: rest) 2 := by
  rw [execute_leads_iff rfl rfl (by decide)]
  constructor
  · rintro ⟨-, ran⟩
    obtain ⟨_, _, top, rfl⟩ := Call.digest_leads_iff.mp ran
    cases top
    rfl
  · rintro rfl
    exact ⟨room, Call.digest_leads_iff.mpr ⟨item, rest, rfl, rfl⟩⟩

theorem push_leads_iff {item : Bytes} {rest : List Bytes} (size : hash.length = 20)
    (room : rest.length + 1 < Limits.stackItems) :
    (execute .standard spend code ⟨2, 23, 20, some hash⟩).Leads (.onlyStack (item :: rest) 2) s' ↔
      s' = .onlyStack (hash :: item :: rest) 2 := by
  have allowed : refuseAnywhere .standard ⟨2, 23, 20, some hash⟩ = .ok () := by
    have short : ¬Limits.itemSize < hash.length := by rw [size]; decide
    exact if_neg short
  rw [execute_leads_iff rfl allowed (by decide)]
  constructor
  · rintro ⟨-, ran⟩
    exact Call.pushData_leads_iff.mp ran
  · rintro rfl
    exact ⟨room, Call.pushData_leads_iff.mpr rfl⟩

theorem equalVerify_leads_iff {right left : Bytes} {rest : List Bytes}
    (room : rest.length ≤ Limits.stackItems) :
    (execute .standard spend code ⟨23, 24, Opcode.equalVerify, none⟩).Leads
        (.onlyStack (right :: left :: rest) 2) s' ↔
      left = right ∧ s' = .onlyStack rest 3 := by
  rw [execute_leads_iff rfl rfl (by decide)]
  constructor
  · rintro ⟨-, ran⟩
    obtain ⟨_, _, top, rfl⟩ := Call.equal_true_leads_iff.mp ran
    cases top
    exact ⟨rfl, rfl⟩
  · rintro ⟨rfl, rfl⟩
    exact ⟨room, Call.equal_true_leads_iff.mpr ⟨left, rest, rfl, rfl⟩⟩

/-- The signature covers the script without its own pushes, as no code separator has been met. -/
theorem check_leads_iff (size : hash.length = 20) (room : stack.length ≤ Limits.stackItems) :
    (execute .standard spend (script hash) checkOperation).Leads (.onlyStack stack 3) s' ↔
      ∃ key signature rest valid, stack = key :: signature :: rest ∧
        (check hash spend).checkOne (signedCode hash signature) signature key = .ok valid ∧
        s' = .onlyStack (Script.ofBool valid :: rest) 4 := by
  rw [execute_leads_iff rfl rfl (by decide)]
  constructor
  · rintro ⟨-, ran⟩
    obtain ⟨key, signature, rest, covered, valid, found, covers, checked, rfl⟩ :=
      Call.checkSig_false_leads_iff.mp ran
    cases (signedCode_eq size spend signature).symm.trans covers
    exact ⟨key, signature, rest, valid, found, checked, rfl⟩
  · rintro ⟨key, signature, rest, valid, rfl, checked, rfl⟩
    refine ⟨?_, Call.checkSig_false_leads_iff.mpr
      ⟨key, signature, rest, _, valid, rfl, signedCode_eq size spend signature, checked, rfl⟩⟩
    exact Nat.le_of_succ_le room

/-- **What the script does**: with the hash of the item on top, that item is the key and the one
below it the signature, and whether this is valid stands in their place. -/
theorem executeAll_iff (size : hash.length = 20) (room : stack.length + 1 < Limits.stackItems) :
    executeAll .standard spend (script hash) (prologue hash ++ [checkOperation])
        (.onlyStack stack 0) = .ok () s' ↔
      ∃ key signature rest valid, stack = key :: signature :: rest ∧
        Digest.hash160 key = hash ∧
        (check hash spend).checkOne (signedCode hash signature) signature key = .ok valid ∧
        s' = .onlyStack (Script.ofBool valid :: rest) 4 := by
  -- the stack is highest when the hash lies on both copies of the item
  have less : stack.length < Limits.stackItems := Nat.lt_of_succ_lt room
  have fits : stack.length ≤ Limits.stackItems := Nat.le_of_lt less
  constructor
  · intro ran
    obtain ⟨_, duplicated, ran⟩ := executeAll_cons_leads.mp ran
    obtain ⟨key, below, rfl, rfl⟩ := (dup_leads_iff less).mp duplicated
    obtain ⟨_, hashed, ran⟩ := executeAll_cons_leads.mp ran
    cases (hash160_leads_iff less).mp hashed
    obtain ⟨_, pushed, ran⟩ := executeAll_cons_leads.mp ran
    cases (push_leads_iff size room).mp pushed
    obtain ⟨_, compared, ran⟩ := executeAll_cons_leads.mp ran
    obtain ⟨same, rfl⟩ := (equalVerify_leads_iff fits).mp compared
    obtain ⟨_, checked, ended⟩ := executeAll_cons_leads.mp ran
    cases ended
    obtain ⟨_, signature, rest, valid, found, answer, rfl⟩ :=
      (check_leads_iff size fits).mp checked
    cases found
    exact ⟨key, signature, rest, valid, rfl, same, answer, rfl⟩
  · rintro ⟨key, signature, rest, valid, rfl, same, answer, rfl⟩
    refine executeAll_cons_leads.mpr ⟨_, (dup_leads_iff less).mpr ⟨key, _, rfl, rfl⟩, ?_⟩
    refine executeAll_cons_leads.mpr ⟨_, (hash160_leads_iff less).mpr rfl, ?_⟩
    refine executeAll_cons_leads.mpr ⟨_, (push_leads_iff size room).mpr rfl, ?_⟩
    refine executeAll_cons_leads.mpr ⟨_, (equalVerify_leads_iff fits).mpr ⟨same, rfl⟩, ?_⟩
    exact executeAll_cons_leads.mpr ⟨_, (check_leads_iff size fits).mpr
      ⟨key, signature, rest, valid, rfl, answer, rfl⟩, rfl⟩

end

/-- **A payment to the hash of a key is exact.** Whatever script unlocks it, if that script succeeds
and leaves room on the stack, verification accepts it precisely where the item left on top has the
hash and the one below it is a valid signature by that key. -/
theorem accepts_iff {hash : Bytes} (size : hash.length = 20) (unlocking : Script) (spend : Spend) :
    let first := (Run.start unlocking .standard spend .empty).complete
    first.outcome = .success → first.state.stack.length ≤ 998 →
      (verifyScripts unlocking (script hash) .standard spend = .ok true ↔
        ∃ key signature rest, first.state.stack = key :: signature :: rest ∧
          Digest.hash160 key = hash ∧
          (check hash spend).checkOne (signedCode hash signature) signature key = .ok true) := by
  intro first succeeded few
  have left : evaluate unlocking .standard spend [] = .ok first.state :=
    Run.complete_onStack_success_iff.mp ⟨succeeded, rfl⟩
  have room : first.state.stack.length + 1 < Limits.stackItems :=
    Nat.lt_of_le_of_lt (Nat.add_le_add_right few 1) (by decide)
  have ran {s : State} : evaluate (script hash) .standard spend first.state.stack = .ok s ↔
      executeAll .standard spend (script hash) (prologue hash ++ [checkOperation])
        (.onlyStack first.state.stack 0) = .ok () s ∧ s.branches = [] := by
    simp only [evaluate_eq_ok_iff, operationsToRun_script size, Except.ok.injEq, exists_eq_left']
    rfl
  constructor
  · intro accepted
    obtain ⟨s, left', s', ran', top⟩ := verifyScripts_eq_ok_iff.mp accepted
    cases left.symm.trans left'
    obtain ⟨key, signature, rest, valid, found, same, answer, rfl⟩ :=
      (executeAll_iff size room).mp (ran.mp ran').1
    cases valid with
    | true => exact ⟨key, signature, rest, found, same, answer⟩
    | false => exact absurd (top : false = true) Bool.false_ne_true
  · rintro ⟨key, signature, rest, found, same, answer⟩
    have done := (executeAll_iff size room).mpr
      ⟨key, signature, rest, true, found, same, answer, rfl⟩
    exact verifyScripts_eq_ok_iff.mpr ⟨_, left, _, ran.mpr ⟨done, rfl⟩, rfl⟩

/-- The key is the generator itself. The input has no output beside it, so a fixed digest is signed.
A code separator and an item on the other stack are left behind as well. -/
theorem accepts_iff_generator :
    let x := Bytes.ofNatBE 32 Curve.Point.generator.x
    let key : Bytes := 0x02 :: x
    let signature := [0x30, 0x44, 0x02, 0x20] ++ x ++ [0x02, 0x20] ++
      Bytes.ofNatBE 32 (Bytes.toNatBE Sighash.one.bytes + Curve.Point.generator.x) ++ [0x03]
    let unlocking := Script.push signature ++ [0x51, 0x63] ++ Script.push key ++
      [0x68, 0x54, 0x6b, 0xab]
    let spend : Spend :=
      ⟨some ⟨Preset.bitcoinTransaction, [("vin", .inputs [⟨OutPoint.null, [], 0⟩])]⟩, 0, 0⟩
    (Run.start unlocking .standard spend .empty).complete.outcome = .success ∧
      (Run.start unlocking .standard spend .empty).complete.state.stack = [key, signature] ∧
      verifyScripts unlocking (script (Digest.hash160 key)) .standard spend = .ok true := by
  intro x key signature unlocking spend
  have succeeded :
      (Run.start unlocking .standard spend .empty).complete.outcome = .success := by
    decide +kernel
  have left :
      (Run.start unlocking .standard spend .empty).complete.state.stack = [key, signature] := by
    decide +kernel
  have valid : (check (Digest.hash160 key) spend).checkOne
      (signedCode (Digest.hash160 key) signature) signature key = .ok true := by
    decide +kernel
  have judged := accepts_iff (Digest.length_hash160 key) unlocking spend succeeded
    (by rw [left]; decide)
  exact ⟨succeeded, left, judged.mpr ⟨key, signature, [], left, rfl, valid⟩⟩

end PayToKeyHash
end LedgerScript
