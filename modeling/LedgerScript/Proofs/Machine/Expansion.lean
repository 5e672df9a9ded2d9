import Mathlib.Logic.Basic
import LedgerScript.Proofs.Fallible
import LedgerScript.Proofs.Machine.Effects
import LedgerScript.Proofs.Script.Number

namespace LedgerScript

open LedgerScript.Action

/-- The action rearranges the main stack, and fails where the function has no result. -/
def Action.Rearranges {α : Type} (m : Action α) (g : List Bytes → Option (List Bytes)) : Prop :=
  ∀ s s', m.Leads s s' ↔ ∃ stack, g s.stack = some stack ∧ s' = { s with stack := stack }

namespace Action.Rearranges

variable {α β : Type} {g h : List Bytes → Option (List Bytes)}

theorem pure (x : α) : (pure x : Action α).Rearranges some := by
  intro s s'
  rw [pure_leads_iff]
  simp only [Option.some.injEq, exists_eq_left']

theorem bind {m : Action α} {f : α → Action β} (first : m.Rearranges g)
    (later : ∀ x, (f x).Rearranges h) : (m >>= f).Rearranges fun stack => (g stack).bind h := by
  intro s s''
  rw [bind_leads_iff]
  simp only [Option.bind_eq_some_iff]
  constructor
  · rintro ⟨x, s', ran, after⟩
    obtain ⟨between, moved, rfl⟩ := (first s s').mp ⟨x, ran⟩
    obtain ⟨stack, moved', rfl⟩ := (later x _ s'').mp after
    exact ⟨stack, ⟨between, moved, moved'⟩, rfl⟩
  · rintro ⟨stack, ⟨between, moved, moved'⟩, rfl⟩
    obtain ⟨x, ran⟩ := (first s { s with stack := between }).mpr ⟨between, moved, rfl⟩
    exact ⟨x, _, ran, (later x _ _).mpr ⟨stack, moved', rfl⟩⟩

end Action.Rearranges

theorem StackMove.run_rearranges (move : StackMove) (call : Call) :
    (move.run call).Rearranges fun stack => (move.apply stack).map Prod.fst := by
  intro s s'
  simp only [run_leads_iff, Option.map_eq_some_iff, Prod.exists, exists_and_right, exists_eq_right]

namespace Call

variable {call : Call} {s s' : State}

/-- An index finds the item that has so many others above it. -/
theorem popIndex_leads_iff {α : Type} {f : Nat × Bytes → Action α} :
    (call.popIndex >>= f).Leads s s' ↔ ∃ index top x base, s.stack = index :: (top ++ x :: base) ∧
      Script.toNumber Limits.numberSize index = .ok (top.length : Int) ∧
      (f (top.length, x)).Leads { s with stack := top ++ x :: base } s' := by
  rw [bind_leads_iff]
  constructor
  · rintro ⟨⟨n, x⟩, s₁, found, after⟩
    obtain ⟨popped, held⟩ := popIndex_eq_ok_iff.mp found
    obtain ⟨index, _, stack, read, rfl⟩ := popNumber_eq_ok_iff.mp popped
    obtain ⟨top, base, rfl, rfl⟩ := Fallible.getElem?_eq_some_iff.mp held
    exact ⟨index, top, x, base, stack, read, after⟩
  · rintro ⟨index, top, x, base, stack, read, after⟩
    refine ⟨(top.length, x), _, popIndex_eq_ok_iff.mpr ⟨?_, ?_⟩, after⟩
    · exact popNumber_eq_ok_iff.mpr ⟨index, _, stack, read, rfl⟩
    · exact Fallible.getElem?_eq_some_iff.mpr ⟨top, base, rfl, rfl⟩

/-- OP_PICK copies the item that its index finds. -/
theorem pick_leads_iff :
    call.pick.Leads s s' ↔ ∃ index top x base, s.stack = index :: (top ++ x :: base) ∧
      Script.toNumber Limits.numberSize index = .ok (top.length : Int) ∧
      s' = { s with stack := x :: (top ++ x :: base) } := by
  rw [pick, popIndex_leads_iff]
  simp only [push_bind_leads_iff, pure_leads_iff]

/-- OP_ROLL moves the item that its index finds. -/
theorem roll_leads_iff :
    call.roll.Leads s s' ↔ ∃ index top x base, s.stack = index :: (top ++ x :: base) ∧
      Script.toNumber Limits.numberSize index = .ok (top.length : Int) ∧
      s' = { s with stack := x :: (top ++ base) } := by
  have others : ∀ (top : List Bytes) x base,
      (top ++ x :: base).eraseIdx top.length = top ++ base := by
    intro top x base
    rw [List.eraseIdx_append_of_length_le (Nat.le_refl _), Nat.sub_self, List.eraseIdx_zero,
      List.tail_cons]
  rw [roll, popIndex_leads_iff]
  simp only [modify_bind_leads_iff, pure_leads_iff, others]

end Call

/-- A step of an expansion. -/
inductive Shuffle where
  | pick (index : UInt8)
  | roll (index : UInt8)
  | drop
deriving DecidableEq, Repr

namespace Shuffle

/-- The stack after a step. -/
def apply : Shuffle → List Bytes → Option (List Bytes)
  | pick index, stack => stack[index.toNat]?.map (· :: stack)
  | roll index, stack => stack[index.toNat]?.map (· :: stack.eraseIdx index.toNat)
  | drop, [] => none
  | drop, _ :: rest => some rest

/-- Runs the code of a step, with its index pushed just before. -/
def run (calls : UInt8 → Call) : Shuffle → Action String
  | pick index => do
    Action.pushNumber index.toNat
    (calls 0x79).behave 0x79
  | roll index => do
    Action.pushNumber index.toNat
    (calls 0x7a).behave 0x7a
  | drop => (calls 0x75).behave 0x75

/-- The stack after steps one after another. -/
def applyAll : List Shuffle → List Bytes → Option (List Bytes)
  | [], stack => some stack
  | step :: steps, stack => (step.apply stack).bind (applyAll steps)

/-- Runs steps one after another. -/
def runAll (calls : UInt8 → Call) : List Shuffle → Action Unit
  | [] => pure ()
  | step :: steps => do
    let _ ← step.run calls
    runAll calls steps

theorem toNumber_index (index : UInt8) :
    Script.toNumber Limits.numberSize (Script.ofNumber index.toNat) = .ok (index.toNat : Int) := by
  have byte := index.toNat_lt
  refine Script.toNumber_ofNumber_of_lt_half ?_
  simp only [Bytes.modulus]
  omega

theorem pushNumber_popIndex_leads_iff {call : Call} {index : UInt8} {s s' : State} {α : Type}
    {f : Nat × Bytes → Action α} :
    (Action.pushNumber index.toNat >>= fun _ => call.popIndex >>= f).Leads s s' ↔
      ∃ x, s.stack[index.toNat]? = some x ∧ (f (index.toNat, x)).Leads s s' := by
  have pushed : Action.pushNumber index.toNat s =
    .ok () { s with stack := Script.ofNumber index.toNat :: s.stack } := rfl
  rw [bind_leads_of_ok pushed, bind_leads_iff]
  constructor
  · rintro ⟨⟨n, x⟩, s₁, found, after⟩
    obtain ⟨popped, held⟩ := Call.popIndex_eq_ok_iff.mp found
    obtain ⟨_, _, ⟨⟩, read, rfl⟩ := Call.popNumber_eq_ok_iff.mp popped
    cases read.symm.trans (toNumber_index index)
    exact ⟨x, held, after⟩
  · rintro ⟨x, held, after⟩
    refine ⟨(index.toNat, x), s, Call.popIndex_eq_ok_iff.mpr ⟨?_, held⟩, after⟩
    exact Call.popNumber_eq_ok_iff.mpr ⟨_, s.stack, rfl, toNumber_index index, rfl⟩

theorem run_rearranges (calls : UInt8 → Call) (step : Shuffle) :
    (step.run calls).Rearranges step.apply := by
  cases step with
  | pick index =>
    intro s s'
    have picks : run calls (pick index) =
      (Action.pushNumber index.toNat >>= fun _ => (calls 0x79).pick) := rfl
    rw [picks, Call.pick, pushNumber_popIndex_leads_iff]
    simp only [push_bind_leads_iff, pure_leads_iff, apply, Option.map_eq_some_iff,
      exists_exists_and_eq_and]
  | roll index =>
    intro s s'
    have rolls : run calls (roll index) =
      (Action.pushNumber index.toNat >>= fun _ => (calls 0x7a).roll) := rfl
    rw [rolls, Call.roll, pushNumber_popIndex_leads_iff]
    simp only [modify_bind_leads_iff, pure_leads_iff, apply, Option.map_eq_some_iff,
      exists_exists_and_eq_and]
  | drop =>
    intro s s'
    have drops : run calls drop = StackMove.drop.run (calls 0x75) := rfl
    rw [drops, StackMove.run_rearranges]
    cases s.stack <;> simp [StackMove.apply, apply]

theorem runAll_rearranges (calls : UInt8 → Call) (steps : List Shuffle) :
    (runAll calls steps).Rearranges (applyAll steps) := by
  induction steps with
  | nil => exact .pure ()
  | cons step steps ih => exact (step.run_rearranges calls).bind fun _ => ih

end Shuffle

/-- Which codes are expanded to which steps. -/
def expansions : List (UInt8 × List Shuffle) :=
  -- OP_DUP, OP_OVER, OP_SWAP, OP_ROT, OP_NIP, OP_TUCK
  [ (0x76, [.pick 0]),
    (0x78, [.pick 1]),
    (0x7c, [.roll 1]),
    (0x7b, [.roll 2]),
    (0x77, [.roll 1, .drop]),
    (0x7d, [.roll 1, .pick 1]),
  -- OP_2DUP, OP_3DUP, OP_2OVER, OP_2SWAP, OP_2ROT
    (0x6e, [.pick 1, .pick 1]),
    (0x6f, [.pick 2, .pick 2, .pick 2]),
    (0x70, [.pick 3, .pick 3]),
    (0x72, [.roll 3, .roll 3]),
    (0x71, [.roll 5, .roll 5]) ]

/-- Each of the codes moves items as its steps do. -/
theorem exists_move_of_mem_expansions : ∀ row ∈ expansions, ∃ move : StackMove,
    Handler.standard? row.1 = some (.move move) ∧ ∀ stack : List Bytes,
      (move.apply stack).map Prod.fst = Shuffle.applyAll row.2 stack := by
  simp only [expansions, List.forall_mem_cons, List.not_mem_nil, false_implies, implies_true,
    and_true]
  refine ⟨⟨.dup, rfl, ?_⟩, ⟨.over, rfl, ?_⟩, ⟨.swap, rfl, ?_⟩, ⟨.rot, rfl, ?_⟩, ⟨.nip, rfl, ?_⟩,
    ⟨.tuck, rfl, ?_⟩, ⟨.dup2, rfl, ?_⟩, ⟨.dup3, rfl, ?_⟩, ⟨.over2, rfl, ?_⟩, ⟨.swap2, rfl, ?_⟩,
    ⟨.rot2, rfl, ?_⟩⟩ <;>
    -- none of them looks further down than six items
    rintro (_ | ⟨a, _ | ⟨b, _ | ⟨c, _ | ⟨d, _ | ⟨e, _ | ⟨f, rest⟩⟩⟩⟩⟩⟩) <;> rfl

/-- **Codes that rearrange the stack do what their expansions do.** On every stack both fail, or
both succeed and leave the same stack, whatever operations they are run as. OP_ROLL and OP_PICK
succeed where their index, on top, is how many items there are above some item below it; that item
is moved to the top or copied there. -/
theorem expansion_leads_iff :
    (∀ row ∈ expansions, ∀ (calls : UInt8 → Call) s s',
      ((calls row.1).behave row.1).Leads s s' ↔ (Shuffle.runAll calls row.2).Leads s s') ∧
    (∀ (call : Call) s s', (call.behave 0x7a).Leads s s' ↔ ∃ index top x base,
      s.stack = index :: (top ++ x :: base) ∧ Script.toNumber 4 index = .ok (top.length : Int) ∧
      s' = { s with stack := x :: (top ++ base) }) ∧
    ∀ (call : Call) s s', (call.behave 0x79).Leads s s' ↔ ∃ index top x base,
      s.stack = index :: (top ++ x :: base) ∧ Script.toNumber 4 index = .ok (top.length : Int) ∧
      s' = { s with stack := x :: (top ++ x :: base) } := by
  refine ⟨fun row listed calls s s' => ?_, fun call s s' => ?_, fun call s s' => ?_⟩
  · obtain ⟨move, bound, moves⟩ := exists_move_of_mem_expansions row listed
    have runs : (calls row.1).behave row.1 = move.run (calls row.1) := by
      rw [Call.behave, bound]
      rfl
    rw [runs, move.run_rearranges, Shuffle.runAll_rearranges]
    simp only [moves]
  · exact Call.roll_leads_iff
  · exact Call.pick_leads_iff

/-- Twice the sixth item is moved to the top, as by OP_2ROT. Five items are not enough for that. -/
theorem expansion_leads_iff_rot2 :
    let calls : UInt8 → Call := fun opcode => ⟨⟨0, 1, opcode, none⟩, "", [], ⟨none, 0, 0⟩⟩
    (Shuffle.runAll calls [.roll 5, .roll 5]).Leads
      { State.empty with stack := [[6], [5], [4], [3], [2], [1]] }
      { State.empty with stack := [[2], [1], [6], [5], [4], [3]] } ∧
    ∀ s', ¬(Shuffle.runAll calls [.roll 5, .roll 5]).Leads
      { State.empty with stack := [[6], [5], [4], [3], [2]] } s' := by
  intro calls
  have expands := expansion_leads_iff.1 (0x71, [.roll 5, .roll 5]) (by simp [expansions]) calls
  refine ⟨(expands _ _).mp ⟨_, rfl⟩, fun s' leads => ?_⟩
  obtain ⟨_, ran⟩ := (expands _ _).mpr leads
  cases ran

end LedgerScript
