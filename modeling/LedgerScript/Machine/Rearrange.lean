import LedgerScript.Machine.State
import LedgerScript.Machine.Handler

namespace LedgerScript.StackMove

/-- The stack after a move, and what is reported; nothing if there are too few items. -/
def apply : StackMove → List Bytes → Option (List Bytes × String)
  | .drop, a :: r => some (r, s!"Dropped {showItem a}")
  | .drop2, _ :: _ :: r => some (r, "Dropped the top two stack items")
  | .dup, a :: r => some (a :: a :: r, s!"Duplicated {showItem a}")
  | .dup2, a :: b :: r => some (a :: b :: a :: b :: r, "Duplicated the top two stack items")
  | .dup3, a :: b :: c :: r =>
    some (a :: b :: c :: a :: b :: c :: r, "Duplicated the top three stack items")
  | .over, a :: b :: r =>
    some (b :: a :: b :: r, s!"Copied the second item {showItem b} to the top")
  | .over2, a :: b :: c :: d :: r =>
    some (c :: d :: a :: b :: c :: d :: r, "Copied the second pair of items to the top")
  | .rot, a :: b :: c :: r => some (c :: a :: b :: r, "Rotated the top three items")
  | .rot2, a :: b :: c :: d :: e :: f :: r =>
    some (e :: f :: a :: b :: c :: d :: r, "Moved the third pair of items to the top")
  | .swap, a :: b :: r => some (b :: a :: r, "Swapped the top two items")
  | .swap2, a :: b :: c :: d :: r =>
    some (c :: d :: a :: b :: r, "Swapped the top two pairs of items")
  | .nip, a :: b :: r => some (a :: r, s!"Removed the second item {showItem b}")
  | .tuck, a :: b :: r => some (a :: b :: a :: r, s!"Copied {showItem a} below the second item")
  | _, _ => none

/-- How many items a failing move reports to need, given how many there are. Duplications look
their items up one by one and report the first that is missing. -/
def needed (move : StackMove) (available : Nat) : Nat :=
  match move with
  | .drop | .dup => 1
  | .drop2 | .over | .swap | .nip | .tuck => 2
  | .rot => 3
  | .over2 | .swap2 => 4
  | .rot2 => 6
  | .dup2 | .dup3 => available + 1

def run (move : StackMove) (call : Call) : Action String := fun s =>
  match move.apply s.stack with
  | some (stack, report) => .ok report { s with stack := stack }
  | none =>
    let available := s.stack.length
    .error (.underflow call.name (move.needed available) available) s

theorem apply_append {move : StackMove} {stack stack' : List Bytes} {report : String}
    (h : move.apply stack = some (stack', report)) (below : List Bytes) :
    move.apply (stack ++ below) = some (stack' ++ below, report) := by
  unfold apply at h
  split at h <;> simp_all [apply] <;> obtain ⟨rfl, rfl⟩ := h <;> simp

end LedgerScript.StackMove
