import LedgerScript.Proofs.Machine.Triple
import LedgerScript.Proofs.Script.Number

namespace LedgerScript

/-- No item of the two stacks is longer than 520 bytes. -/
def State.ItemsShort (s : State) : Prop := ∀ item ∈ s.stack ++ s.alt, item.length ≤ 520

/-- Items are short and no more operations are counted than are allowed. -/
def State.InLimits (s : State) : Prop := s.ItemsShort ∧ s.operations ≤ 201

namespace Action

variable {α β : Type}

/-- From every state in the limits an action goes to another such state, and its value has the
property; where it fails, the items are still short. -/
def Keeps (m : Action α) (p : α → Prop) : Prop :=
  Meets State.InLimits m (fun x s => s.InLimits ∧ p x) fun _ s => s.ItemsShort

namespace Keeps

variable {m m' : Action α} {f : α → Action β} {p q : α → Prop} {r : β → Prop}

theorem pure {x : α} (h : p x) : Keeps (Pure.pure x) p := Meets.pure fun _ hs => ⟨hs, h⟩

theorem throw (e : Error) : Keeps (MonadExcept.throw e : Action α) p :=
  Meets.throw fun _ hs => hs.1

theorem bind (first : Keeps m p) (second : ∀ x, p x → Keeps (f x) r) : Keeps (m >>= f) r :=
  Meets.bind first fun x s after => second x after.2 s after.1

/-- A last step that only reports changes nothing. -/
theorem reports {g : α → β} (h : Keeps m p) :
    Keeps (m >>= fun x => Pure.pure (g x)) fun _ => True :=
  h.bind fun _ _ => pure trivial

theorem weaken (h : Keeps m p) (implies : ∀ x, p x → q x) : Keeps m q :=
  Meets.mono h (fun _ hs => hs) (fun x _ after => ⟨after.1, implies x after.2⟩)
    fun _ _ short => short

theorem limits (h : Keeps m p) :
    Meets State.InLimits m (fun _ => State.InLimits) fun _ => State.ItemsShort :=
  Meets.mono h (fun _ hs => hs) (fun _ _ after => after.1) fun _ _ short => short

theorem ite {c : Prop} [Decidable c] (yes : Keeps m p) (no : Keeps m' p) :
    Keeps (if c then m else m') p := Meets.ite yes no

theorem modify {g : State → State} (h : ∀ s, s.InLimits → (g s).InLimits) :
    Keeps (modify g) fun _ => True := Meets.modify fun s hs => ⟨h s hs, trivial⟩

theorem read {f : State → Action β} (h : ∀ s, s.InLimits → Keeps (f s) r) :
    Keeps (get >>= f) r := Meets.read h

theorem ofExcept (result : Except Error α) : Keeps (Action.ofExcept result) fun _ => True :=
  Meets.ofExcept (fun _ _ _ hs => ⟨hs, trivial⟩) fun _ _ _ hs => hs.1

theorem push {item : Bytes} (short : item.length ≤ 520) :
    Keeps (Action.push item) fun _ => True := by
  apply modify
  intro s hs
  refine ⟨?_, hs.2⟩
  intro other member
  cases List.mem_cons.mp member with
  | inl same => exact same ▸ short
  | inr below => exact hs.1 other below

theorem pushNumber {n : Int} (small : n.natAbs < Bytes.modulus 8) :
    Keeps (Action.pushNumber n) fun _ => True :=
  push (Nat.le_trans (Script.length_ofNumber_le small) (by decide))

theorem pushBool (b : Bool) : Keeps (Action.pushBool b) fun _ => True :=
  push (by cases b <;> decide)

end Keeps
end Action

open LedgerScript.Action (Keeps Meets)

namespace Call

variable (call : Call)

theorem fail_keeps {α : Type} {p : α → Prop} (fault : OperationFault) :
    Keeps (call.fail fault) p := Keeps.throw _

theorem require_keeps (n : Nat) : Keeps (call.require n) fun _ => True :=
  Meets.require (fun _ hs _ => ⟨hs, trivial⟩) fun _ hs _ => hs.1

theorem pop_keeps : Keeps call.pop fun item => item.length ≤ 520 := by
  refine Meets.pop (fun s item rest hs found => ?_) fun _ hs _ => hs.1
  have short := hs.1
  unfold State.ItemsShort at short
  rw [found] at short
  refine ⟨⟨?_, hs.2⟩, short item List.mem_cons_self⟩
  intro other member
  exact short other (List.mem_cons_of_mem item member)

theorem top_keeps : Keeps call.top fun item => item.length ≤ 520 := by
  refine Meets.top (fun s item rest hs found => ⟨hs, hs.1 item ?_⟩) fun _ hs _ => hs.1
  rw [found]
  exact List.mem_cons_self

theorem popMany_keeps (n : Nat) : Keeps (call.popMany n) fun _ => True :=
  (Meets.popMany call.pop_keeps.limits n).mono (fun _ hs => hs) (fun _ _ after => ⟨after, trivial⟩)
    fun _ _ short => short

theorem popNumber_keeps : Keeps call.popNumber fun n => n.natAbs < Bytes.modulus 4 := by
  apply Keeps.bind call.pop_keeps
  intro item _
  cases number : Script.toNumber Limits.numberSize item with
  | ok n => exact Keeps.pure (Script.natAbs_lt_of_toNumber number)
  | error e => exact Keeps.throw e

end Call
end LedgerScript
