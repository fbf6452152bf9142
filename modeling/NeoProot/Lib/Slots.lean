import Mathlib.Data.List.Basic
import Mathlib.Data.List.Perm.Basic
import Mathlib.Logic.Function.Basic

/-!
# Tables of slots

A table of slots keeps values under keys and drops a value when it needs the slot for
another.  What it was told is a map without bounds; the table is coherent with the map when
every slot in use holds what the map holds, and no two hold a value for the same key.  A
lookup then finds nothing, or what the map has.

A slot is read by a function that gives its key and its value, and nothing for a slot that
is not in use.

## Main definitions

* `entry`, `lookup` — what a slot holds, and what the table holds under a key.
* `Distinct`, `Coherent` — one slot for each key, and the values of the map.
* `Less` — a table with some slots no longer in use.
* `swapRemove` — the last entry takes the place of one that is removed.
-/

namespace NeoProot.Slots

variable {α κ ν : Type*} (read : α → Option (κ × ν))

/-- What the slot at an index holds. -/
def entry (l : List α) (i : ℕ) : Option (κ × ν) := l[i]?.bind read

/-- No two slots hold a value for the same key. -/
def Distinct (l : List α) : Prop :=
  ∀ i j k v v', entry read l i = some (k, v) → entry read l j = some (k, v') → i = j

/-- Every slot in use holds what the map holds, and has its key alone. -/
structure Coherent (m : κ → Option ν) (l : List α) : Prop where
  distinct : Distinct read l
  within : ∀ i k v, entry read l i = some (k, v) → m k = some v

/-- Every slot in use is so in the other table. -/
def Less (l' l : List α) : Prop :=
  ∀ i k v, entry read l' i = some (k, v) → entry read l i = some (k, v)

variable {read} {l l' l'' : List α} {m m' : κ → Option ν} {i : ℕ} {k : κ} {v : ν} {a : α}

theorem entry_eq_some : entry read l i = some (k, v) ↔ ∃ a, l[i]? = some a ∧ read a = some (k, v) := by
  rw [entry, Option.bind_eq_some_iff]

theorem entry_set_of_ne {j : ℕ} (h : i ≠ j) (a : α) : entry read (l.set i a) j = entry read l j := by
  rw [entry, entry, List.getElem?_set_ne h]

/-- A slot that is written holds what was written, if it exists. -/
theorem eq_of_entry_set_self {k' : κ} {v' : ν} (ha : read a = some (k, v))
    (h : entry read (l.set i a) i = some (k', v')) : k' = k ∧ v' = v := by
  obtain ⟨b, hb, hread⟩ := entry_eq_some.1 h
  obtain ⟨hlt, -⟩ := List.getElem?_eq_some_iff.1 hb
  rw [List.length_set] at hlt
  rw [List.getElem?_set_self hlt, Option.some.injEq] at hb
  rw [← hb, ha, Option.some.injEq, Prod.mk.injEq] at hread
  exact ⟨hread.1.symm, hread.2.symm⟩

namespace Less

theorem refl (l : List α) : Less read l l := fun _ _ _ h => h

theorem trans (h : Less read l'' l') (h' : Less read l' l) : Less read l'' l :=
  fun i k v hv => h' i k v (h i k v hv)

/-- A slot is freed. -/
theorem set (l : List α) (i : ℕ) (ha : read a = none) : Less read (l.set i a) l := by
  intro j k v hv
  by_cases hij : i = j
  · subst hij
    obtain ⟨b, hb, hread⟩ := entry_eq_some.1 hv
    obtain ⟨hlt, -⟩ := List.getElem?_eq_some_iff.1 hb
    rw [List.length_set] at hlt
    rw [List.getElem?_set_self hlt, Option.some.injEq] at hb
    rw [← hb, ha] at hread
    exact absurd hread (by simp)
  · rwa [entry_set_of_ne hij] at hv

/-- Some slots are freed. -/
theorem map (l : List α) {f : α → α} (hf : ∀ a, f a = a ∨ read (f a) = none) :
    Less read (l.map f) l := by
  intro i k v hv
  obtain ⟨b, hb, hread⟩ := entry_eq_some.1 hv
  rw [List.getElem?_map, Option.map_eq_some_iff] at hb
  obtain ⟨a, ha, rfl⟩ := hb
  rw [entry_eq_some]
  obtain hsame | hfree := hf a
  · exact ⟨a, ha, by rw [← hsame, hread]⟩
  · rw [hfree] at hread
    exact absurd hread (by simp)

end Less

theorem Distinct.of_less (h : Distinct read l) (hless : Less read l' l) : Distinct read l' :=
  fun i j k v v' hi hj => h i j k v v' (hless i k v hi) (hless j k v' hj)

namespace Coherent

/-- Slots are freed, among them all whose keys change in the map. -/
theorem of_less (h : Coherent read m l) (hless : Less read l' l)
    (hkept : ∀ i k v, entry read l' i = some (k, v) → m' k = m k) : Coherent read m' l' := by
  refine ⟨h.distinct.of_less hless, fun i k v hv => ?_⟩
  rw [hkept i k v hv]
  exact h.within i k v (hless i k v hv)

/-- **A slot is written.**  No other slot has the key, so the map and the table change at
the same place. -/
theorem put [DecidableEq κ] (h : Coherent read m l) (ha : read a = some (k, v))
    (hothers : ∀ j v', entry read l j = some (k, v') → j = i) :
    Coherent read (Function.update m k (some v)) (l.set i a) := by
  have hother : ∀ j k' v', i ≠ j → entry read (l.set i a) j = some (k', v') →
      entry read l j = some (k', v') ∧ k' ≠ k := by
    intro j k' v' hij hj
    rw [entry_set_of_ne hij] at hj
    refine ⟨hj, fun hkk => ?_⟩
    subst hkk
    exact hij (hothers j v' hj).symm
  constructor
  · intro j j' k' v₁ v₂ hj hj'
    by_cases hij : i = j
    · by_cases hij' : i = j'
      · rw [← hij, ← hij']
      · subst hij
        obtain ⟨rfl, -⟩ := eq_of_entry_set_self ha hj
        exact absurd rfl (hother j' k' v₂ hij' hj').2
    · obtain ⟨hold, hne⟩ := hother j k' v₁ hij hj
      by_cases hij' : i = j'
      · subst hij'
        exact absurd (eq_of_entry_set_self ha hj').1 hne
      · exact h.distinct j j' k' v₁ v₂ hold (hother j' k' v₂ hij' hj').1
  · intro j k' v' hj
    by_cases hij : i = j
    · subst hij
      obtain ⟨rfl, rfl⟩ := eq_of_entry_set_self ha hj
      exact Function.update_self ..
    · obtain ⟨hold, hne⟩ := hother j k' v' hij hj
      rw [Function.update_of_ne hne]
      exact h.within j k' v' hold

end Coherent

/-! ### Lookup -/

variable [DecidableEq κ]

variable (read) in
/-- What the table holds under a key. -/
def lookup (l : List α) (k : κ) : Option ν :=
  l.findSome? fun a => (read a).bind fun e => if e.1 = k then some e.2 else none

theorem lookup_eq_some (h : Distinct read l) :
    lookup read l k = some v ↔ ∃ i, entry read l i = some (k, v) := by
  have hread : ∀ a v, ((read a).bind fun e => if e.1 = k then some e.2 else none) = some v ↔
      read a = some (k, v) := by
    intro a v
    cases read a with
    | none => simp
    | some e =>
      obtain ⟨k', v'⟩ := e
      simp [Prod.mk.injEq]
  constructor
  · intro hl
    obtain ⟨a, ha, hv⟩ := List.exists_of_findSome?_eq_some hl
    obtain ⟨i, hi⟩ := List.mem_iff_getElem?.1 ha
    exact ⟨i, entry_eq_some.2 ⟨a, hi, (hread a v).1 hv⟩⟩
  · rintro ⟨i, hi⟩
    obtain ⟨a, ha, hv⟩ := entry_eq_some.1 hi
    cases hl : lookup read l k with
    | none =>
      have hnone := List.findSome?_eq_none_iff.1 hl a (List.mem_of_getElem? ha)
      rw [(hread a v).2 hv] at hnone
      exact absurd hnone (by simp)
    | some v' =>
      obtain ⟨b, hb, hv'⟩ := List.exists_of_findSome?_eq_some hl
      obtain ⟨j, hj⟩ := List.mem_iff_getElem?.1 hb
      have hsame := (hread b v').1 hv'
      have hij := h i j k v v' hi (entry_eq_some.2 ⟨b, hj, hsame⟩)
      subst hij
      rw [ha, Option.some.injEq] at hj
      subst hj
      rw [hv, Option.some.injEq, Prod.mk.injEq] at hsame
      rw [hsame.2]

/-- **A lookup finds nothing, or what the map has.** -/
theorem Coherent.lookup (h : Coherent read m l) (k : κ) :
    lookup read l k = none ∨ lookup read l k = m k := by
  cases hl : Slots.lookup read l k with
  | none => exact .inl rfl
  | some v =>
    obtain ⟨i, hi⟩ := (lookup_eq_some h.distinct).1 hl
    exact .inr (h.within i k v hi).symm

/-- A table is coherent with what it holds. -/
theorem Distinct.coherent_lookup (h : Distinct read l) : Coherent read (Slots.lookup read l) l :=
  ⟨h, fun i _ _ hi => (lookup_eq_some h).2 ⟨i, hi⟩⟩

/-! ### Removal from a table without gaps -/

section SwapRemove

/-- The entry at an index leaves, and the last one takes its place. -/
def swapRemove (l : List α) (i : ℕ) : List α :=
  match l.getLast? with
  | some last => (l.set i last).dropLast
  | none => l

theorem swapRemove_perm {l : List α} {i : ℕ} (hi : i < l.length) :
    (swapRemove l i).Perm (l.eraseIdx i) := by
  have hne : l ≠ [] := List.ne_nil_of_length_pos (by omega)
  have hset : l.set i (l.getLast hne) ≠ [] := by simpa using hne
  have hlast : (l.set i (l.getLast hne)).getLast hset = l.getLast hne := by
    simp only [List.getLast_eq_getElem, List.getElem_set, List.length_set]
    exact ite_id _
  have hsplit := List.dropLast_append_getLast hset
  rw [hlast] at hsplit
  have hboth : (l.getLast hne :: (l.set i (l.getLast hne)).dropLast).Perm
      (l.getLast hne :: l.eraseIdx i) := by
    calc
      l.getLast hne :: (l.set i (l.getLast hne)).dropLast
        |>.Perm ((l.set i (l.getLast hne)).dropLast ++ [l.getLast hne]) :=
          (List.perm_append_singleton ..).symm
      _ = l.set i (l.getLast hne) := hsplit
      _ |>.Perm (l.getLast hne :: l.eraseIdx i) := List.set_perm_cons_eraseIdx hi _
  rw [swapRemove, List.getLast?_eq_some_getLast hne]
  exact hboth.cons_inv

end SwapRemove

end NeoProot.Slots
