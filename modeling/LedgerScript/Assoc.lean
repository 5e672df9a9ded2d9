/-!
Association lists.

The first binding of a key counts. Putting a value changes that binding where it stands, or adds
one at the end, so keys stay in the order in which they first came.
-/
namespace LedgerScript.Assoc

variable {κ α : Type} [DecidableEq κ]

def put (key : κ) (value : α) : List (κ × α) → List (κ × α)
  | [] => [(key, value)]
  | (k, v) :: rest => if key = k then (k, value) :: rest else (k, v) :: put key value rest

theorem lookup_cons_of_ne {key k : κ} (h : key ≠ k) (v : α) (rest : List (κ × α)) :
    ((k, v) :: rest).lookup key = rest.lookup key := by
  have differ : (key == k) = false := beq_eq_false_iff_ne.mpr h
  simp only [List.lookup_cons, differ]

theorem mem_of_lookup {key : κ} {value : α} {pairs : List (κ × α)}
    (h : pairs.lookup key = some value) : (key, value) ∈ pairs := by
  obtain ⟨before, after, split, -⟩ := List.lookup_eq_some_iff.mp h
  simp [split]

/-- Where no key is bound twice, every binding counts. -/
theorem lookup_of_mem {key : κ} {value : α} {pairs : List (κ × α)}
    (unique : (pairs.map Prod.fst).Nodup) (member : (key, value) ∈ pairs) :
    pairs.lookup key = some value := by
  induction pairs with
  | nil => cases member
  | cons p rest ih =>
    obtain ⟨apart, unique⟩ := List.nodup_cons.mp unique
    cases List.mem_cons.mp member with
    | inl same => rw [← same, List.lookup_cons_self]
    | inr later =>
      have ne : key ≠ p.1 := fun same => apart (same ▸ List.mem_map_of_mem later)
      rw [lookup_cons_of_ne ne, ih unique later]

theorem isSome_lookup_iff {pairs : List (κ × α)} {key : κ} :
    (pairs.lookup key).isSome = true ↔ ∃ value, (key, value) ∈ pairs := by
  rw [Option.isSome_iff_ne_none, ne_eq, List.lookup_eq_none_iff]
  simp

theorem lookup_map {β : Type} (f : α → β) (pairs : List (κ × α)) (key : κ) :
    (pairs.map (Prod.map id f)).lookup key = (pairs.lookup key).map f := by
  induction pairs with
  | nil => rfl
  | cons p pairs ih =>
    obtain ⟨k, v⟩ := p
    by_cases own : key = k
    · subst own
      simp
    · rw [lookup_cons_of_ne own, ← ih]
      exact lookup_cons_of_ne own _ _

@[simp] theorem lookup_put_self (key : κ) (value : α) (pairs : List (κ × α)) :
    (put key value pairs).lookup key = some value := by
  induction pairs with
  | nil => simp [put]
  | cons p rest ih =>
    unfold put
    split
    · next h => simp [h]
    · next h => rw [lookup_cons_of_ne h, ih]

theorem lookup_put_of_ne {key other : κ} (h : other ≠ key) (value : α) (pairs : List (κ × α)) :
    (put key value pairs).lookup other = pairs.lookup other := by
  induction pairs with
  | nil => exact lookup_cons_of_ne h value []
  | cons p rest ih =>
    obtain ⟨k, v⟩ := p
    unfold put
    split
    · next same =>
      subst same
      rw [lookup_cons_of_ne h, lookup_cons_of_ne h]
    · next ne =>
      by_cases same : other = k
      · subst same
        simp
      · rw [lookup_cons_of_ne same, lookup_cons_of_ne same, ih]

/-- The value of a key that does not stand before is replaced where it stands. -/
theorem put_append {key : κ} {before : List (κ × α)} (apart : key ∉ before.map Prod.fst)
    (old value : α) (after : List (κ × α)) :
    put key value (before ++ (key, old) :: after) = before ++ (key, value) :: after := by
  induction before with
  | nil => simp [put]
  | cons p before ih =>
    rw [List.map_cons, List.mem_cons, not_or] at apart
    rw [List.cons_append, put, if_neg apart.1, ih apart.2, List.cons_append]

theorem lookup_put (key other : κ) (value : α) (pairs : List (κ × α)) :
    (put key value pairs).lookup other =
      if other = key then some value else pairs.lookup other := by
  split
  · next h => rw [h, lookup_put_self]
  · next h => exact lookup_put_of_ne h value pairs

/-- Of the values put for a key the last one counts. -/
theorem lookup_foldl_put (pairs found : List (κ × α)) (key : κ) :
    (pairs.foldl (fun found p => put p.1 p.2 found) found).lookup key =
      (pairs.reverse.lookup key).or (found.lookup key) := by
  induction pairs generalizing found with
  | nil => rfl
  | cons p pairs ih =>
    rw [List.foldl_cons, ih, lookup_put, List.reverse_cons, List.lookup_append, Option.or_assoc]
    congr 1
    obtain ⟨k, v⟩ := p
    by_cases own : key = k
    · subst own
      simp
    · rw [if_neg own, lookup_cons_of_ne own]
      rfl

end LedgerScript.Assoc
