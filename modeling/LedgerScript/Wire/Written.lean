import LedgerScript.Error

/-!
What a writer leaves: the bytes laid down, and the fault that stopped it, if one did.

Writing goes on only where nothing has failed, so the bytes of a stopped writer are those laid
down before the fault.
-/
namespace LedgerScript

structure Written where
  bytes : Bytes
  fault : Option Error
deriving DecidableEq, Repr

namespace Written

def ofBytes (bytes : Bytes) : Written := ⟨bytes, none⟩

def stop (fault : Error) : Written := ⟨[], some fault⟩

/-- One writer after another. -/
def andThen (a b : Written) : Written :=
  match a.fault with
  | some _ => a
  | none => ⟨a.bytes ++ b.bytes, b.fault⟩

instance : Append Written := ⟨andThen⟩

def concat (parts : List Written) : Written := parts.foldr andThen (ofBytes [])

def toExcept (w : Written) : Except Error Bytes :=
  match w.fault with
  | some e => .error e
  | none => .ok w.bytes

theorem append_def (a b : Written) : a ++ b = a.andThen b := rfl

@[simp] theorem ofBytes_append (b : Bytes) (w : Written) :
    ofBytes b ++ w = ⟨b ++ w.bytes, w.fault⟩ := rfl

theorem toExcept_eq_ok_iff {w : Written} {b : Bytes} :
    w.toExcept = .ok b ↔ w = ofBytes b := by
  obtain ⟨bytes, _ | e⟩ := w <;> simp [toExcept, ofBytes]

theorem toExcept_eq_error_iff {w : Written} {e : Error} :
    w.toExcept = .error e ↔ w.fault = some e := by
  obtain ⟨bytes, _ | e'⟩ := w <;> simp [toExcept]

theorem exists_toExcept_eq_ok_iff {w : Written} : (∃ b, w.toExcept = .ok b) ↔ w.fault = none := by
  obtain ⟨bytes, _ | e⟩ := w <;> simp [toExcept]

@[simp] theorem concat_nil : concat [] = ofBytes [] := rfl

@[simp] theorem concat_cons (w : Written) (ws : List Written) :
    concat (w :: ws) = w ++ concat ws := rfl

/-- The first of some writers that was stopped stops them all. -/
theorem fault_concat (ws : List Written) : (concat ws).fault = ws.findSome? fault := by
  induction ws with
  | nil => rfl
  | cons w ws ih =>
    obtain ⟨bytes, _ | e⟩ := w
    · exact ih
    · rfl

end Written
end LedgerScript
