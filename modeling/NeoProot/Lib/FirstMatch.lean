import Mathlib.Data.List.Basic

/-!
# Replacing the first match of a list

An entry replaces the first element of its kind, or joins the list at its end.  What
another kind of element sees of this, and what happens when it is done twice, depends on
the kinds alone.

## Main definitions

* `replaceFirst` — the entry in its place.
* `ReadsTo` — a search reads no element that cannot be read.
-/

namespace NeoProot.FirstMatch

variable {α : Type*}

/-- The first element of the kind is replaced; if there is none, the entry is the last. -/
def replaceFirst (p : α → Bool) (a : α) : List α → List α
  | [] => [a]
  | x :: xs => if p x then a :: xs else x :: replaceFirst p a xs

/-- Every element up to the first of the kind, this one included, can be read. -/
def ReadsTo (p : α → Bool) (r : α → Prop) : List α → Prop
  | [] => True
  | x :: xs => r x ∧ (p x = false → ReadsTo p r xs)

variable {p q : α → Bool} {r : α → Prop} {a : α} {xs : List α}

theorem filter_replaceFirst_self (ha : p a = true) :
    (replaceFirst p a xs).filter p = a :: (xs.filter p).tail := by
  induction xs with
  | nil => rw [replaceFirst, List.filter_cons_of_pos ha, List.filter_nil, List.tail_nil]
  | cons x xs ih =>
    rw [replaceFirst]
    by_cases hx : p x = true
    · rw [if_pos hx, List.filter_cons_of_pos ha, List.filter_cons_of_pos hx, List.tail_cons]
    · rw [if_neg hx, List.filter_cons_of_neg hx, List.filter_cons_of_neg hx, ih]

/-- Another kind does not notice. -/
theorem filter_replaceFirst_of_disjoint (ha : q a = false)
    (hdisjoint : ∀ x, p x = true → q x = false) : (replaceFirst p a xs).filter q = xs.filter q := by
  induction xs with
  | nil => rw [replaceFirst, List.filter_cons_of_neg (by simp [ha])]
  | cons x xs ih =>
    rw [replaceFirst]
    by_cases hx : p x = true
    · rw [if_pos hx, List.filter_cons_of_neg (by simp [ha]),
        List.filter_cons_of_neg (by simp [hdisjoint x hx])]
    · rw [if_neg hx, List.filter_cons, List.filter_cons, ih]

/-- An entry that is in its place already changes nothing. -/
theorem replaceFirst_eq_self (h : (xs.filter p).head? = some a) : replaceFirst p a xs = xs := by
  induction xs with
  | nil => simp at h
  | cons x xs ih =>
    rw [replaceFirst]
    by_cases hx : p x = true
    · rw [List.filter_cons_of_pos hx, List.head?_cons, Option.some.injEq] at h
      rw [if_pos hx, h]
    · rw [List.filter_cons_of_neg hx] at h
      rw [if_neg hx, ih h]

/-- A search reads no more after the change than before, if the new entry can be read. -/
theorem ReadsTo.replaceFirst (h : ReadsTo q r xs) (ha : r a)
    (hsame : ∀ x, p x = true → q x = true → q a = true) : ReadsTo q r (replaceFirst p a xs) := by
  induction xs with
  | nil => exact ⟨ha, fun _ => trivial⟩
  | cons x xs ih =>
    rw [FirstMatch.replaceFirst]
    by_cases hx : p x = true
    · rw [if_pos hx]
      refine ⟨ha, fun hq => h.2 ?_⟩
      rw [Bool.eq_false_iff] at hq ⊢
      exact fun hqx => hq (hsame x hx hqx)
    · rw [if_neg hx]
      exact ⟨h.1, fun hq => ih (h.2 hq)⟩

theorem mem_replaceFirst {x : α} (h : x ∈ replaceFirst p a xs) : x = a ∨ x ∈ xs := by
  induction xs with
  | nil => exact .inl (List.mem_singleton.1 h)
  | cons y ys ih =>
    rw [replaceFirst] at h
    split_ifs at h
    · exact (List.mem_cons.1 h).imp id (List.mem_cons_of_mem y)
    · cases List.mem_cons.1 h with
      | inl hy => exact .inr (hy ▸ List.mem_cons_self)
      | inr hys => exact (ih hys).imp id (List.mem_cons_of_mem y)

theorem replaceFirst_eq_set {k : ℕ} (h : xs.findIdx? p = some k) :
    replaceFirst p a xs = xs.set k a := by
  induction xs generalizing k with
  | nil => cases h
  | cons x xs ih =>
    rw [List.findIdx?_cons] at h
    rw [replaceFirst]
    by_cases hx : p x = true
    · rw [if_pos hx, Option.some.injEq] at h
      rw [if_pos hx, ← h, List.set_cons_zero]
    · rw [if_neg hx, Option.map_eq_some_iff] at h
      obtain ⟨j, hj, rfl⟩ := h
      rw [if_neg hx, List.set_cons_succ, ih hj]

theorem replaceFirst_eq_append (h : xs.findIdx? p = none) : replaceFirst p a xs = xs ++ [a] := by
  induction xs with
  | nil => rfl
  | cons x xs ih =>
    rw [List.findIdx?_cons] at h
    rw [replaceFirst]
    by_cases hx : p x = true
    · rw [if_pos hx] at h
      cases h
    · rw [if_neg hx, Option.map_eq_none_iff] at h
      rw [if_neg hx, ih h, List.cons_append]

end NeoProot.FirstMatch
