import Mathlib.Data.List.Forall2
import Mathlib.Data.List.Induction

namespace LedgerScript.Fallible

variable {ε α β : Type}

theorem bind_eq_ok_iff {x : Except ε α} {f : α → Except ε β} {b : β} :
    (x >>= f) = .ok b ↔ ∃ a, x = .ok a ∧ f a = .ok b := by
  cases x with
  | error e => simp [bind, Except.bind]
  | ok a => simp [bind, Except.bind]

theorem map_eq_ok_iff {x : Except ε α} {f : α → β} {b : β} :
    x.map f = .ok b ↔ ∃ a, x = .ok a ∧ f a = b := by
  cases x with
  | error e => simp [Except.map]
  | ok a => simp [Except.map]

theorem bind_eq_error_iff {x : Except ε α} {f : α → Except ε β} {e : ε} :
    (x >>= f) = .error e ↔ x = .error e ∨ ∃ a, x = .ok a ∧ f a = .error e := by
  cases x with
  | error e => simp [bind, Except.bind]
  | ok a => simp [bind, Except.bind]

theorem map_eq_error_iff {x : Except ε α} {f : α → β} {e : ε} :
    x.map f = .error e ↔ x = .error e := by
  cases x <;> simp [Except.map]

theorem mapM_eq_ok_iff {f : α → Except ε β} {xs : List α} {ys : List β} :
    xs.mapM f = .ok ys ↔ List.Forall₂ (fun x y => f x = .ok y) xs ys := by
  induction xs generalizing ys with
  | nil => cases ys <;> simp [pure, Except.pure]
  | cons x xs ih =>
    rw [List.mapM_cons, List.forall₂_cons_left_iff]
    simp only [bind_eq_ok_iff, ih]
    constructor
    · rintro ⟨y, first, rest, others, same⟩
      cases same
      exact ⟨y, rest, first, others, rfl⟩
    · rintro ⟨y, rest, first, others, rfl⟩
      exact ⟨y, first, rest, others, rfl⟩

theorem exists_of_forall₂ {r : α → β → Prop} {xs : List α} {ys : List β}
    (h : List.Forall₂ r xs ys) : ∀ x ∈ xs, ∃ y ∈ ys, r x y := by
  induction h with
  | nil => exact List.forall_mem_nil _
  | @cons x y xs ys first _ ih =>
    refine List.forall_mem_cons.mpr ⟨⟨y, List.mem_cons_self, first⟩, ?_⟩
    intro other member
    obtain ⟨z, place, related⟩ := ih other member
    exact ⟨z, List.mem_cons_of_mem y place, related⟩

theorem exists_of_forall₂_append {r : α → β → Prop} {xs : List α} {as bs : List β}
    (h : List.Forall₂ r xs (as ++ bs)) :
    ∃ xs₁ xs₂, xs = xs₁ ++ xs₂ ∧ List.Forall₂ r xs₁ as ∧ List.Forall₂ r xs₂ bs :=
  ⟨xs.take as.length, xs.drop as.length, (List.take_append_drop _ _).symm,
    List.forall₂_take_append xs as bs h, List.forall₂_drop_append xs as bs h⟩

/-- What does not hold of all members holds up to some member, and not of that. -/
theorem exists_first {p : α → Prop} {list : List α} (some : ¬ ∀ x ∈ list, p x) :
    ∃ before x after, list = before ++ x :: after ∧ (∀ y ∈ before, p y) ∧ ¬ p x := by
  induction list with
  | nil => exact absurd nofun some
  | cons x list ih =>
    by_cases own : p x
    · obtain ⟨before, y, after, rfl, earlier, fails⟩ :=
        ih fun others => some (List.forall_mem_cons.mpr ⟨own, others⟩)
      exact ⟨x :: before, y, after, rfl, List.forall_mem_cons.mpr ⟨own, earlier⟩, fails⟩
    · exact ⟨[], x, list, rfl, nofun, own⟩

/-- An index finds the member that has so many others before it. -/
theorem getElem?_eq_some_iff {list : List α} {n : Nat} {x : α} :
    list[n]? = some x ↔ ∃ before after, list = before ++ x :: after ∧ before.length = n := by
  constructor
  · intro found
    obtain ⟨bound, rfl⟩ := List.getElem?_eq_some_iff.mp found
    refine ⟨list.take n, list.drop (n + 1), ?_, List.length_take_of_le (Nat.le_of_lt bound)⟩
    rw [List.getElem_cons_drop, List.take_append_drop]
  · rintro ⟨before, after, rfl, rfl⟩
    simp

/-- Without its repetitions a list keeps the order in which its members first come. -/
theorem pairwise_idxOf_eraseDups [BEq α] [LawfulBEq α] (values : List α) :
    values.eraseDups.Pairwise fun a b => values.idxOf a < values.idxOf b := by
  induction values using List.reverseRecOn with
  | nil => exact .nil
  | append_singleton values last ih =>
    have kept : ∀ a ∈ values.eraseDups, (values ++ [last]).idxOf a = values.idxOf a := fun a h =>
      List.idxOf_append_of_mem (List.mem_eraseDups.mp h)
    by_cases known : last ∈ values
    · have same : [last].removeAll values = [] := by simp [List.removeAll, known]
      rw [List.eraseDups_append, same, List.eraseDups_nil, List.append_nil]
      exact ih.imp_of_mem fun ha hb before => by rwa [kept _ ha, kept _ hb]
    · have new : [last].removeAll values = [last] := by simp [List.removeAll, known]
      rw [List.eraseDups_append, new, List.pairwise_append]
      refine ⟨ih.imp_of_mem fun ha hb before => by rwa [kept _ ha, kept _ hb], ?_, ?_⟩
      · exact List.pairwise_singleton _ last
      · intro a ha b hb
        obtain rfl : b = last := List.mem_singleton.mp (List.mem_eraseDups.mp hb)
        rw [kept a ha, List.idxOf_append_of_notMem known]
        have place : values.idxOf a < values.length :=
          List.idxOf_lt_length_of_mem (List.mem_eraseDups.mp ha)
        omega

theorem length_flatten_le {as bs : List (List α)}
    (h : List.Forall₂ (fun a b => a.length ≤ b.length) as bs) :
    as.flatten.length ≤ bs.flatten.length := by
  induction h with
  | nil => exact Nat.le_refl _
  | cons first others ih =>
    simp only [List.flatten_cons, List.length_append]
    omega

/-- Lists that are not longer, one by one, than others of the same total are the others. -/
theorem eq_of_flatten_eq {as bs : List (List α)}
    (shorter : List.Forall₂ (fun a b => a.length ≤ b.length) as bs)
    (same : as.flatten = bs.flatten) : as = bs := by
  induction shorter with
  | nil => rfl
  | @cons a b as bs first others ih =>
    have rest : as.flatten.length ≤ bs.flatten.length := length_flatten_le others
    have total : a.length + as.flatten.length = b.length + bs.flatten.length := by
      simpa using congrArg List.length same
    have length : a.length = b.length := by omega
    obtain ⟨rfl, tail⟩ := List.append_inj same length
    rw [ih tail]

/-- Each result of a list of computations is the result of one of them. -/
theorem exists_of_mem_mapM {f : α → Except ε β} {xs : List α} {ys : List β}
    (done : xs.mapM f = .ok ys) : ∀ y ∈ ys, ∃ x ∈ xs, f x = .ok y := by
  have each : List.Forall₂ (flip fun x y => f x = .ok y) ys xs := (mapM_eq_ok_iff.mp done).flip
  exact exists_of_forall₂ each

/-- What holds of each result of a computation holds of all results of a list of them. -/
theorem forall_mem_of_mapM {f : α → Except ε β} {p : β → Prop} (each : ∀ x y, f x = .ok y → p y)
    {xs : List α} {ys : List β} (done : xs.mapM f = .ok ys) : ∀ y ∈ ys, p y := by
  intro y member
  obtain ⟨x, -, result⟩ := exists_of_mem_mapM done y member
  exact each x y result

end LedgerScript.Fallible
