import Mathlib.Data.List.NodupEquivFin
import LedgerScript.Chain.Preset
import LedgerScript.Proofs.Machine.Execution
import LedgerScript.Proofs.Script.Number

/-!
What checks of several signatures decide.

Each signature is tried against the keys that are left, and takes the first that it verifies with.
Nothing is lost by this: where the signatures can be matched with keys in order at all, they are
matched like this.
-/
namespace LedgerScript

open List (SublistForall₂)

section

variable {σ κ : Type} {r : σ → κ → Prop} {s : σ} {k : κ} {ss : List σ} {ks : List κ}

theorem sublistForall₂_of_cons (h : SublistForall₂ r (s :: ss) ks) : SublistForall₂ r ss ks := by
  obtain ⟨_, related, inside⟩ := List.sublistForall₂_iff.mp h
  cases related with
  | cons _ related =>
    exact List.sublistForall₂_iff.mpr ⟨_, related, (List.sublist_cons_self _ _).trans inside⟩

/-- Where the first key will do for the first signature, a matching may as well begin with it. -/
theorem sublistForall₂_cons_iff_of_rel (h : r s k) :
    SublistForall₂ r (s :: ss) (k :: ks) ↔ SublistForall₂ r ss ks := by
  constructor
  · intro matching
    cases matching with
    | cons _ rest => exact rest
    | cons_right rest => exact sublistForall₂_of_cons rest
  · exact .cons h

theorem sublistForall₂_cons_iff_of_not_rel (h : ¬r s k) :
    SublistForall₂ r (s :: ss) (k :: ks) ↔ SublistForall₂ r (s :: ss) ks := by
  constructor
  · intro matching
    cases matching with
    | cons related _ => exact absurd related h
    | cons_right rest => exact rest
  · exact .cons_right

theorem sublistForall₂_reverse_iff :
    SublistForall₂ r ss.reverse ks.reverse ↔ SublistForall₂ r ss ks := by
  simp only [List.sublistForall₂_iff]
  constructor
  · rintro ⟨taken, related, inside⟩
    refine ⟨taken.reverse, ?_, List.reverse_sublist.mp (taken.reverse_reverse.symm ▸ inside)⟩
    rwa [← List.forall₂_reverse_iff, List.reverse_reverse]
  · rintro ⟨taken, related, inside⟩
    exact ⟨taken.reverse, List.forall₂_reverse_iff.mpr related, inside.reverse⟩

/-- A matching assigns positions to positions, each further on than the one before. -/
theorem sublistForall₂_iff_strictMono :
    SublistForall₂ r ss ks ↔
      ∃ f : Fin ss.length → Fin ks.length, StrictMono f ∧ ∀ i, r ss[i] ks[f i] := by
  rw [List.sublistForall₂_iff]
  constructor
  · rintro ⟨taken, related, inside⟩
    obtain ⟨length, pairs⟩ := List.forall₂_iff_get.mp related
    obtain ⟨f, placed⟩ := List.sublist_iff_exists_fin_orderEmbedding_get_eq.mp inside
    refine ⟨fun i => f (i.cast length), fun i j less => f.strictMono less, fun i => ?_⟩
    have pair := pairs i i.isLt (length ▸ i.isLt)
    rw [placed] at pair
    exact pair
  · rintro ⟨f, increasing, verified⟩
    refine ⟨List.ofFn fun i => ks[f i], ?_, ?_⟩
    · rw [List.forall₂_iff_get]
      exact ⟨List.length_ofFn.symm, fun i _ _ => by simpa using verified ⟨i, _⟩⟩
    · rw [List.sublist_iff_exists_fin_orderEmbedding_get_eq]
      refine ⟨(Fin.castOrderIso List.length_ofFn).toOrderEmbedding.trans
        (OrderEmbedding.ofStrictMono f increasing), fun i => ?_⟩
      simp
      rfl

end

/-- **The search decides whether there is a matching**, if all checks have an answer. -/
theorem matchInOrder_decides {σ κ : Type} (check : σ → κ → Except Error Bool) (ss : List σ)
    (ks : List κ) (checked : ∀ s ∈ ss, ∀ k ∈ ks, ∃ b, check s k = .ok b) :
    ∃ b, matchInOrder check ss ks = .ok b ∧
      (b = true ↔ SublistForall₂ (fun s k => check s k = .ok true) ss ks) := by
  induction ks generalizing ss with
  | nil =>
    cases ss with
    | nil => exact ⟨true, rfl, iff_of_true rfl .nil⟩
    | cons s ss => exact ⟨false, rfl, iff_of_false Bool.false_ne_true (by rintro ⟨⟩)⟩
  | cons k ks ih =>
    cases ss with
    | nil => exact ⟨true, rfl, iff_of_true rfl .nil⟩
    | cons s ss =>
      obtain ⟨b, verified⟩ := checked s List.mem_cons_self k List.mem_cons_self
      cases b with
      | true =>
        obtain ⟨b, found, decides⟩ := ih ss fun s' ms k' mk =>
          checked s' (List.mem_cons_of_mem _ ms) k' (List.mem_cons_of_mem _ mk)
        have exchange : SublistForall₂ (fun s k => check s k = .ok true) (s :: ss) (k :: ks) ↔
            SublistForall₂ (fun s k => check s k = .ok true) ss ks :=
          sublistForall₂_cons_iff_of_rel verified
        refine ⟨b, ?_, decides.trans exchange.symm⟩
        rw [matchInOrder, verified]
        exact found
      | false =>
        obtain ⟨b, found, decides⟩ := ih (s :: ss) fun s' ms k' mk =>
          checked s' ms k' (List.mem_cons_of_mem _ mk)
        refine ⟨b, ?_, decides.trans (sublistForall₂_cons_iff_of_not_rel ?_).symm⟩
        · rw [matchInOrder, verified]
          exact found
        · rw [verified]
          exact fun same => by cases same

theorem Script.toNumber_ofNumber_count {n : Nat} (few : n ≤ Limits.multisigKeys) :
    toNumber Limits.numberSize (ofNumber n) = .ok (n : Int) := by
  refine toNumber_ofNumber_of_lt_half ?_
  simp only [Bytes.modulus, Limits.multisigKeys] at few ⊢
  omega

namespace Call

variable (call : Call) {s : State} {item : Bytes} {rest : List Bytes}

theorem popMany_of_append {items : List Bytes} (top : s.stack = items ++ rest) :
    call.popMany items.length s = .ok items { s with stack := rest } := by
  induction items generalizing s with
  | nil =>
    cases s
    cases top
    rfl
  | cons item items ih =>
    rw [List.length_cons, popMany, Action.bind_of_ok (call.pop_of_cons top),
      Action.bind_of_ok (ih rfl)]
    rfl

theorem popCount_of_cons {n most : Nat} (what : String) (few : n ≤ most)
    (number : Script.toNumber Limits.numberSize item = .ok (n : Int))
    (top : s.stack = item :: rest) :
    call.popCount what most s = .ok n { s with stack := rest } := by
  have popped : call.popNumber s = .ok (n : Int) { s with stack := rest } :=
    popNumber_eq_ok_iff.mpr ⟨item, rest, top, number, rfl⟩
  rw [popCount, Action.bind_of_ok popped, if_neg (by simp; omega)]
  rfl

/-- A check takes the number of keys, the keys, the number of signatures, the signatures and one
item more. The keys count as operations. -/
theorem checkMultiSigResult_of_stack {signatures keys base : List Bytes} {dummy : Bytes}
    {code : Script} {valid : Bool}
    (stack : s.stack = Script.ofNumber keys.length :: (keys ++
      Script.ofNumber signatures.length :: (signatures ++ dummy :: base)))
    (enough : signatures.length ≤ keys.length) (few : keys.length ≤ Limits.multisigKeys)
    (room : s.operations + keys.length ≤ Limits.operations)
    (covered : call.signedCode s.codeStart signatures = .ok code)
    (matched : matchInOrder (call.checkOne code) signatures keys = .ok valid) :
    call.checkMultiSigResult s = .ok (valid, signatures.length, keys.length)
      { s with stack := base, operations := s.operations + keys.length } := by
  have counted (items : List Bytes) : call.countKeys keys.length { s with stack := items } =
      .ok () { s with stack := items, operations := s.operations + keys.length } := by
    rw [countKeys_eq, if_neg (Nat.not_lt.mpr room)]
  have keyNumber := Script.toNumber_ofNumber_count few
  have signatureNumber := Script.toNumber_ofNumber_count (enough.trans few)
  unfold checkMultiSigResult
  refine (Action.bind_of_ok (call.popCount_of_cons _ few keyNumber stack)).trans ?_
  refine (Action.bind_of_ok (counted _)).trans ?_
  refine (Action.bind_of_ok (call.require_of_le (by simp))).trans ?_
  refine (Action.bind_of_ok (call.popMany_of_append rfl)).trans ?_
  refine (Action.bind_of_ok (call.popCount_of_cons _ enough signatureNumber rfl)).trans ?_
  refine (Action.bind_of_ok (call.require_of_le (by simp))).trans ?_
  refine (Action.bind_of_ok (call.popMany_of_append rfl)).trans ?_
  refine (Action.bind_of_ok (call.pop_of_cons rfl)).trans ?_
  rw [Action.get_bind, covered]
  refine (Action.bind_of_ok rfl).trans ?_
  rw [matched]
  rfl

end Call

/-- Under a limit that is not reached, an operation without data that a table gives a behaviour is
that behaviour, followed by the check of the two stacks. -/
theorem execute_of_bound {table : Table} {call : Call} {handler : Handler} {s : State}
    (found : table.entry? call.op.opcode = some ⟨call.name, handler⟩)
    (enabled : Opcode.isDisabled call.op.opcode = false) (plain : call.op.data = none)
    (executing : s.isExecuting = true) (room : ¬s.Exceeds call.op) :
    execute table call.spend call.script call.op s =
      match handler.run call (s.count call.op) with
      | .error e s' => .error e s'
      | .ok report s' =>
        if Limits.stackItems < s'.depth then .error (.script (.stackTooLarge s'.depth)) s'
        else .ok report s' := by
  have allowed : refuseAnywhere table call.op = .ok () := by
    rw [refuseAnywhere, enabled, plain]
    rfl
  rw [execute_eq, if_neg room, allowed, executing, dispatch_eq, found]
  rfl

/-- **A check of several signatures decides whether they match keys in order.**

The stack, from the bottom: what is below, one item that is dropped, the signatures and their
number, the keys and their number. If every signature can be checked with every key, the answer is
whether each signature can be assigned a key that it verifies with, later signatures later keys. -/
theorem execute_checkMultiSig {table : Table} {call : Call} (verifying : Bool) {s : State}
    {base signatures keys : List Bytes} {dummy : Bytes} {code : Script}
    (opcode : call.op.opcode = if verifying then 0xaf else 0xae) (plain : call.op.data = none)
    (found : table.entry? call.op.opcode = some ⟨call.name, .checkMultiSig verifying⟩)
    (executing : s.isExecuting = true)
    (stack : s.stack = (base ++ [dummy] ++ signatures ++ [Script.ofNumber signatures.length] ++
      keys ++ [Script.ofNumber keys.length]).reverse)
    (enough : signatures.length ≤ keys.length) (few : keys.length ≤ 20)
    (depth : base.length + 1 + s.alt.length ≤ 1000)
    (room : s.operations + 1 + keys.length ≤ 201)
    (covered : call.signedCode s.codeStart signatures.reverse = .ok code)
    (checked : ∀ signature ∈ signatures, ∀ key ∈ keys,
      ∃ b, call.checkOne code signature key = .ok b) :
    let left (items : List Bytes) : State :=
      { s with stack := items.reverse, operations := s.operations + (1 + keys.length) }
    ∃ valid : Bool,
      (valid = true ↔ ∃ f : Fin signatures.length → Fin keys.length, StrictMono f ∧
        ∀ i, call.checkOne code signatures[i] keys[f i] = .ok true) ∧
      ∃ report, execute table call.spend call.script call.op s =
        match verifying, valid with
        | false, _ => .ok report (left (base ++ [Script.ofBool valid]))
        | true, true => .ok report (left base)
        | true, false =>
          .error (call.fault (.invalidSignatures signatures.length keys.length)) (left base) := by
  intro left
  obtain ⟨valid, matched, decides⟩ :=
    matchInOrder_decides (call.checkOne code) signatures.reverse keys.reverse
      fun signature ms key mk =>
        checked signature (List.mem_reverse.mp ms) key (List.mem_reverse.mp mk)
  rw [sublistForall₂_reverse_iff, sublistForall₂_iff_strictMono] at decides
  refine ⟨valid, decides, ?_⟩
  have counted : Opcode.isCounted call.op.opcode = true := by
    rw [opcode]
    cases verifying <;> decide
  have enabled : Opcode.isDisabled call.op.opcode = false := by
    rw [opcode]
    cases verifying <;> decide
  have count_eq : s.count call.op = { s with operations := s.operations + 1 } := by
    rw [State.count, if_pos counted]
  have roomy : ¬s.Exceeds call.op := fun exceeds =>
    absurd exceeds.2 (Nat.not_lt.mpr ((Nat.le_add_right _ _).trans room))
  have taken : call.checkMultiSigResult (s.count call.op) =
      .ok (valid, signatures.length, keys.length) (left base) := by
    have stacked : (s.count call.op).stack = Script.ofNumber keys.reverse.length ::
        (keys.reverse ++ Script.ofNumber signatures.reverse.length ::
          (signatures.reverse ++ dummy :: base.reverse)) := by
      simp [stack]
    have result := call.checkMultiSigResult_of_stack stacked (by simpa using enough)
      (by rw [List.length_reverse]; exact few) (by rw [List.length_reverse, count_eq]; exact room)
      (by rw [State.count_codeStart]; exact covered) matched
    rw [List.length_reverse, List.length_reverse, count_eq] at result
    rw [count_eq, result, Nat.add_assoc]
  rw [execute_of_bound found enabled plain executing roomy, Handler.run, Call.checkMultiSig,
    Action.bind_of_ok taken]
  have fits {items : List Bytes} (short : items.length ≤ base.length + 1) :
      ¬Limits.stackItems < (left items).depth := by
    simp only [left, State.depth, List.length_reverse, Limits.stackItems]
    omega
  cases verifying with
  | false =>
    have pushed : left (base ++ [Script.ofBool valid]) =
        { left base with stack := Script.ofBool valid :: (left base).stack } := by
      simp [left]
    have room : ¬Limits.stackItems < (left (base ++ [Script.ofBool valid])).depth := fits (by simp)
    rw [pushed] at room ⊢
    exact ⟨_, if_neg room⟩
  | true =>
    cases valid with
    | true => exact ⟨_, if_neg (fits (Nat.le_succ _))⟩
    | false => exact ⟨"", rfl⟩

/-- One signature by the generator, whose key is tried after another that is no key at all. The
input has no output beside it, so a fixed digest is signed. -/
theorem execute_checkMultiSig_generator :
    let x := Bytes.ofNatBE 32 Curve.Point.generator.x
    let key : Bytes := 0x02 :: x
    let signature := [0x30, 0x44, 0x02, 0x20] ++ x ++ [0x02, 0x20] ++
      Bytes.ofNatBE 32 (Bytes.toNatBE Sighash.one.bytes + Curve.Point.generator.x) ++ [0x03]
    let spend : Spend :=
      ⟨some ⟨Preset.bitcoinTransaction, [("vin", .inputs [⟨OutPoint.null, [], 0⟩])]⟩, 0, 0⟩
    let stack := ([[7]] ++ [[]] ++ [signature] ++ [Script.ofNumber 1] ++ [key, [2]] ++
      [Script.ofNumber 2]).reverse
    ∃ report,
      execute .standard spend [0xae] ⟨0, 1, 0xae, none⟩ { State.empty with stack := stack } =
        .ok report { State.empty with stack := [[1], [7]], operations := 3 } := by
  intro x key signature spend stack
  let call : Call := ⟨⟨0, 1, 0xae, none⟩, "OP_CHECKMULTISIG", [0xae], spend⟩
  have unreadable : call.checkOne [0xae] signature [2] = .ok false := by decide +kernel
  have verified : call.checkOne [0xae] signature key = .ok true := by decide +kernel
  have found : Table.standard.entry? call.op.opcode = some ⟨call.name, .checkMultiSig false⟩ := rfl
  have stacked : { State.empty with stack := stack }.stack =
      ([[7]] ++ [[]] ++ [signature] ++ [Script.ofNumber [signature].length] ++ [key, [2]] ++
        [Script.ofNumber [key, [2]].length]).reverse := rfl
  have covered : call.signedCode 0 [signature].reverse = .ok [0xae] := by decide +kernel
  obtain ⟨valid, decides, report, ran⟩ := execute_checkMultiSig false rfl rfl found rfl stacked
    (by decide) (by decide) (by decide) (by decide) covered (by simp [unreadable, verified])
  have increasing : StrictMono fun _ : Fin 1 => (0 : Fin 2) := Subsingleton.strictMono _
  have matched : valid = true := decides.mpr ⟨_, increasing, fun | ⟨0, _⟩ => verified⟩
  rw [matched] at ran
  exact ⟨report, ran⟩

end LedgerScript
