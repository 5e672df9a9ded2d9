import LedgerScript.Chain.Preset
import LedgerScript.Proofs.Machine.Effects
import LedgerScript.Proofs.Machine.Evaluation
import LedgerScript.Proofs.Script.Number
import LedgerScript.Proofs.Script.Parts

namespace LedgerScript

/-- The lock time is no later than that of the transaction, both are heights or both are times, and
the input that is spent is not final. -/
def Spend.HasReached (spend : Spend) (lock : Int) : Prop :=
  ∃ tx input, spend.transaction = some tx ∧ tx.inputs[spend.input]? = some input ∧
    input.sequence ≠ 0xffffffff ∧
    let reached := (tx.lockTime?.getD 0).toInt
    lock ≤ reached ∧ (lock < Limits.lockTimeThreshold ↔ reached < Limits.lockTimeThreshold)

namespace Call

variable {call : Call} {s s' : State}

theorem hasReached_of_lockTimeReached {lock reached : Int}
    (h : call.lockTimeReached lock = .ok reached) : call.spend.HasReached lock := by
  unfold lockTimeReached at h
  split at h
  · cases h
  cases present : call.spend.transaction with
  | none =>
    rw [present] at h
    cases h
  | some tx =>
    simp only [present] at h
    cases found : tx.inputs[call.spend.input]? with
    | none =>
      rw [found] at h
      split_ifs at h
    | some input =>
      simp only [found] at h
      split_ifs at h with kinds late final
      have same : isHeight (tx.lockTime?.getD 0).toInt = isHeight lock := by simpa using kinds
      exact ⟨tx, input, present, found, final, Int.not_lt.mp late,
        (decide_eq_decide.mp same).symm⟩

/-- The check succeeds on a lock time that has been reached only. -/
theorem hasReached_of_checkLockTime {optional : Bool}
    (enforced : optional = true → call.spend.has Limits.checkLockTime = true)
    (ran : (call.checkLockTime optional).Leads s s') :
    ∃ item rest lock, s.stack = item :: rest ∧
      Script.toNumber Limits.lockTimeSize item = .ok lock ∧ call.spend.HasReached lock := by
  have checked : (optional && !call.spend.has Limits.checkLockTime) = false := by
    cases optional with
    | false => rfl
    | true => rw [enforced rfl]; rfl
  rw [checkLockTime, checked] at ran
  obtain ⟨-, item, rest, lock, reached, found, number, ends⟩ := verifyLockTime_leads_iff.mp ran
  exact ⟨item, rest, lock, found, number, hasReached_of_lockTimeReached ends⟩

end Call

/-- Under the table the code checks lock times in spends such as this one, and pushes push. -/
structure Table.Enforces (table : Table) (spend : Spend) (code : UInt8) : Prop where
  plain : Script.lengthWidth? code = none
  check : ∃ name optional, table.entry? code = some ⟨name, .checkLockTime optional⟩ ∧
    (optional = true → spend.has Limits.checkLockTime = true)
  pushes : ∀ v < Opcode.pushData1, ∃ name, table.entry? v = some ⟨name, .pushData⟩

/-- A script that begins with a push of few bytes and a code without data. -/
theorem Script.operations_push_append {data rest : Bytes} {code : UInt8} {ops : List Operation}
    (short : data.length ≤ 0x4b) (plain : lengthWidth? code = none)
    (split : operations (push data ++ [code] ++ rest) = .ok ops) :
    ∃ first second others, ops = first :: second :: others ∧
      first.opcode < Opcode.pushData1 ∧ first.data = some data ∧ second.opcode = code := by
  obtain ⟨pushed, direct⟩ := spells_push_of_short short
  rw [List.append_assoc, operations, pushed.operationsFrom_append] at split
  obtain ⟨later, split', rfl⟩ := Fallible.map_eq_ok_iff.mp split
  rw [(Spells.plain plain).operationsFrom_append] at split'
  obtain ⟨others, -, rfl⟩ := Fallible.map_eq_ok_iff.mp split'
  exact ⟨_, _, others, rfl, direct, rfl, rfl⟩

/-- **No script that begins with a lock time and its check succeeds early.** -/
theorem hasReached_of_evaluate {table : Table} {spend : Spend} {code : UInt8}
    (enforces : table.Enforces spend code) {data rest : Bytes} {lock : Int}
    (number : Script.toNumber Limits.lockTimeSize data = .ok lock) {stack : List Bytes} {s : State}
    (left : evaluate (Script.push data ++ [code] ++ rest) table spend stack = .ok s) :
    spend.HasReached lock := by
  have short : data.length ≤ 0x4b :=
    Nat.le_trans (Script.toNumber_eq_ok_iff.mp number).1 (by decide)
  obtain ⟨ops, split, ran, -⟩ := evaluate_eq_ok_iff.mp left
  unfold Run.operationsToRun at split
  split at split
  · cases split
  obtain ⟨first, second, others, rfl, direct, carried, checks⟩ :=
    Script.operations_push_append short enforces.plain split
  obtain ⟨s₁, pushed, ran⟩ := executeAll_cons_leads.mp ran
  obtain ⟨s₂, checked, -⟩ := executeAll_cons_leads.mp ran
  obtain ⟨name, pushes⟩ := enforces.pushes first.opcode direct
  obtain ⟨-, -, -, pushed⟩ := (execute_leads_iff rfl pushes).mp pushed
  have onTop := Call.pushData_leads_iff.mp pushed
  have executing : s₁.isExecuting = true := by
    rw [onTop]
    exact (State.count_isExecuting _ first).trans rfl
  obtain ⟨name', optional, found, enforced⟩ := enforces.check
  rw [← checks] at found
  obtain ⟨-, -, -, checked⟩ := (execute_leads_iff executing found).mp checked
  obtain ⟨item, below, lock', top, number', reached⟩ :=
    Call.hasReached_of_checkLockTime enforced checked
  -- what the check finds on top is what has just been pushed
  rw [State.count_stack, onTop, carried, Option.getD_some] at top
  cases top
  rw [number, Except.ok.injEq] at number'
  exact number' ▸ reached

theorem Entry.standard?_push {v : UInt8} (direct : v < Opcode.pushData1) :
    ∃ name, Entry.standard? v = some ⟨name, .pushData⟩ := by
  have code : v < Opcode.minusOne := UInt8.lt_trans direct (by decide)
  rw [Entry.standard?, Handler.standard?, if_pos code]
  exact ⟨_, rfl⟩

theorem Table.standard_enforces {spend : Spend} (enforced : spend.has Limits.checkLockTime = true) :
    Table.standard.Enforces spend Opcode.checkLockTime where
  plain := rfl
  check := ⟨_, true, rfl, fun _ => enforced⟩
  pushes _ := Entry.standard?_push

theorem Preset.clams_enforces (spend : Spend) :
    Table.Enforces ⟨Preset.clams.overrides⟩ spend Opcode.firstNop where
  plain := rfl
  check := ⟨_, false, rfl, fun optional => by cases optional⟩
  pushes v direct := by
    have other : ∀ v < Opcode.pushData1, Table.override? ⟨Preset.clams.overrides⟩ v = none := by
      apply Bytes.forall_byte
      decide +kernel
    rw [Table.entry?, other v direct]
    exact Entry.standard?_push direct

theorem Script.toNumber_ofNumber_lock {n : Int} (positive : 0 ≤ n) (fits : n < 0x8000000000) :
    toNumber Limits.lockTimeSize (ofNumber n) = .ok n := by
  refine toNumber_ofNumber_of_lt_half ?_
  simp only [Bytes.modulus]
  omega

/-- **What is locked until a time is not spent early.** Where verification of a locking script that
begins with a lock time and its check does not fail, the lock time has been reached: under the
standard table where such checks are enforced, and under the table of the chain with a code of its
own for them in any case. Lock times go up to the largest of 39 bits, the most that five bytes with
a sign can hold. -/
theorem verifyScripts_hasReached {n : Int} (positive : 0 ≤ n) (fits : n < 0x8000000000)
    (unlocking rest : Script) (spend : Spend) :
    (spend.has Limits.checkLockTime = true → ∀ b,
      verifyScripts unlocking
          (Script.push (Script.ofNumber n) ++ [Opcode.checkLockTime] ++ rest) .standard spend =
        .ok b → spend.HasReached n) ∧
    ∀ b, verifyScripts unlocking
          (Script.push (Script.ofNumber n) ++ [Opcode.firstNop] ++ rest)
          ⟨Preset.clams.overrides⟩ spend =
        .ok b → spend.HasReached n := by
  have number := Script.toNumber_ofNumber_lock positive fits
  constructor
  · intro enforced b verified
    obtain ⟨s, -, s', left, -⟩ := verifyScripts_eq_ok_iff.mp verified
    exact hasReached_of_evaluate (Table.standard_enforces enforced) number left
  · intro b verified
    obtain ⟨s, -, s', left, -⟩ := verifyScripts_eq_ok_iff.mp verified
    exact hasReached_of_evaluate (Preset.clams_enforces spend) number left

/-- A time that needs the fifth byte for its sign, checked by either code. -/
theorem verifyScripts_hasReached_time :
    let spend : Spend := ⟨some ⟨Preset.bitcoinTransaction,
      [("vin", .inputs [⟨OutPoint.null, [], 0⟩]), ("nLockTime", .int 0x80000000)]⟩, 0, 1⟩
    verifyScripts [0x51]
        (Script.push (Script.ofNumber 0x80000000) ++ [Opcode.checkLockTime] ++ [0x75])
        .standard spend = .ok true ∧
      verifyScripts [0x51]
        (Script.push (Script.ofNumber 0x80000000) ++ [Opcode.firstNop] ++ [0x75])
        ⟨Preset.clams.overrides⟩ spend = .ok true ∧
      spend.HasReached 0x80000000 := by
  intro spend
  have verified : verifyScripts [0x51]
      (Script.push (Script.ofNumber 0x80000000) ++ [Opcode.checkLockTime] ++ [0x75])
      .standard spend = .ok true := by decide +kernel
  have verified' : verifyScripts [0x51]
      (Script.push (Script.ofNumber 0x80000000) ++ [Opcode.firstNop] ++ [0x75])
      ⟨Preset.clams.overrides⟩ spend = .ok true := by decide +kernel
  have reached := verifyScripts_hasReached (by decide : (0 : Int) ≤ 0x80000000) (by decide) [0x51]
    [0x75] spend
  exact ⟨verified, verified', reached.1 (by decide) true verified⟩

end LedgerScript
