import Mathlib.Data.List.Range
import Mathlib.Algebra.Order.Group.Nat

/-!
# A memory of pages

An address space is cut into pages, some of which are mapped.  A range is mapped if each of
its places is; what is put somewhere leaves every other place as it was.

## Main definitions

* `PagedMemory` — the pages and what their places hold.
* `PagedMemory.Mapped` — every place of a range is mapped.
* `PagedMemory.values` — what a range holds.
* `PagedMemory.put` — values are put somewhere.
* `PagedMemory.putMapped` — as many of them as have a place.
-/

namespace NeoProot

/-- Pages of one size, and what their places hold. -/
structure PagedMemory (α : Type*) where
  pageSize : ℕ
  isMapped : ℕ → Bool
  value : ℕ → α
  pageSize_pos : 0 < pageSize

namespace PagedMemory

variable {α : Type*} (m : PagedMemory α)

/-- Every place of the range is mapped. -/
def Mapped (a n : ℕ) : Prop := ∀ i, i < n → m.isMapped ((a + i) / m.pageSize) = true

instance (a n : ℕ) : Decidable (m.Mapped a n) := Nat.decidableBallLT n _

/-- What the range holds. -/
def values (a n : ℕ) : List α := (List.range n).map fun i => m.value (a + i)

/-- The values are put at an address. -/
def put (a : ℕ) (data : List α) : PagedMemory α :=
  { m with value := fun x => if a ≤ x then data[x - a]?.getD (m.value x) else m.value x }

/-- How many places are mapped before the first that is not. -/
def mappedLength (a : ℕ) : ℕ → ℕ
  | 0 => 0
  | n + 1 => if m.isMapped (a / m.pageSize) then mappedLength (a + 1) n + 1 else 0

/-- The values are put as far as there are places for them. -/
def putMapped (a : ℕ) (data : List α) : PagedMemory α :=
  m.put a (data.take (m.mappedLength a data.length))

variable {m} {a n k : ℕ} {data more : List α}

theorem mapped_zero : m.Mapped a 0 := fun _ h => absurd h (Nat.not_lt_zero _)

theorem Mapped.mono (h : m.Mapped a n) (hk : k ≤ n) : m.Mapped a k :=
  fun i hi => h i (Nat.lt_of_lt_of_le hi hk)

theorem mapped_add : m.Mapped a (n + k) ↔ m.Mapped a n ∧ m.Mapped (a + n) k := by
  constructor
  · intro h
    refine ⟨h.mono (Nat.le_add_right n k), fun i hi => ?_⟩
    have hplace := h (n + i) (by omega)
    rw [← Nat.add_assoc] at hplace
    exact hplace
  · rintro ⟨hfront, hback⟩ i hi
    by_cases hlt : i < n
    · exact hfront i hlt
    · have hplace := hback (i - n) (by omega)
      have hsum : a + n + (i - n) = a + i := by omega
      rw [hsum] at hplace
      exact hplace

theorem mapped_succ : m.Mapped a (n + 1) ↔
    m.isMapped (a / m.pageSize) = true ∧ m.Mapped (a + 1) n := by
  rw [Nat.add_comm n 1, mapped_add]
  refine and_congr_left' ⟨fun h => h 0 (by omega), fun h i hi => ?_⟩
  have hzero : i = 0 := by omega
  rw [hzero]
  exact h

@[simp] theorem length_values : (m.values a n).length = n := by
  rw [values, List.length_map, List.length_range]

theorem values_add : m.values a (n + k) = m.values a n ++ m.values (a + n) k := by
  rw [values, List.range_add, List.map_append, List.map_map, values, values]
  congr 2
  funext i
  rw [Function.comp_apply, Nat.add_assoc]

theorem take_values (h : k ≤ n) : (m.values a n).take k = m.values a k := by
  obtain ⟨d, rfl⟩ := Nat.exists_eq_add_of_le h
  rw [values_add]
  exact List.take_left' length_values

theorem mappedLength_eq (h : m.Mapped a n) : m.mappedLength a n = n := by
  induction n generalizing a with
  | zero => rfl
  | succ n ih =>
    obtain ⟨hfirst, hrest⟩ := mapped_succ.1 h
    rw [mappedLength, if_pos hfirst, ih hrest]

theorem putMapped_eq (h : m.Mapped a data.length) : m.putMapped a data = m.put a data := by
  rw [putMapped, mappedLength_eq h, List.take_length]

@[simp] theorem mapped_put {b : ℕ} : (m.put b data).Mapped a n ↔ m.Mapped a n := Iff.rfl

theorem put_nil : m.put a [] = m := by
  have hsame : (fun x => if a ≤ x then ([] : List α)[x - a]?.getD (m.value x) else m.value x) =
      m.value := by
    funext x
    rw [List.getElem?_nil, Option.getD_none, ite_self]
  rw [put, hsame]

/-- What is put somewhere changes no other place. -/
theorem value_put_outside {x : ℕ} (h : x < a ∨ a + data.length ≤ x) :
    (m.put a data).value x = m.value x := by
  cases h with
  | inl hlt => exact if_neg (Nat.not_le.2 hlt)
  | inr hle =>
    have hnone : data[x - a]? = none := List.getElem?_eq_none (by omega)
    change (if a ≤ x then data[x - a]?.getD (m.value x) else m.value x) = m.value x
    rw [hnone, Option.getD_none, ite_self]

theorem value_put_inside {i : ℕ} (h : i < data.length) :
    some ((m.put a data).value (a + i)) = data[i]? := by
  change some (if a ≤ a + i then data[a + i - a]?.getD (m.value (a + i)) else m.value (a + i)) = _
  rw [if_pos (Nat.le_add_right a i), Nat.add_sub_cancel_left, List.getElem?_eq_getElem h,
    Option.getD_some]

theorem put_append : (m.put a data).put (a + data.length) more = m.put a (data ++ more) := by
  have hsame : ((m.put a data).put (a + data.length) more).value = (m.put a (data ++ more)).value := by
    funext x
    by_cases hbefore : x < a
    · rw [value_put_outside (.inl (by omega)), value_put_outside (.inl hbefore),
        value_put_outside (.inl hbefore)]
    obtain ⟨i, rfl⟩ := Nat.exists_eq_add_of_le (Nat.not_lt.1 hbefore)
    by_cases hfirst : i < data.length
    · rw [value_put_outside (.inl (by omega)), ← Option.some.injEq, value_put_inside hfirst,
        value_put_inside (by rw [List.length_append]; omega), List.getElem?_append_left hfirst]
    obtain ⟨j, rfl⟩ := Nat.exists_eq_add_of_le (Nat.not_lt.1 hfirst)
    by_cases hsecond : j < more.length
    · have hsum : a + (data.length + j) = a + data.length + j := by omega
      rw [← Option.some.injEq, value_put_inside (m := m) (by rw [List.length_append]; omega),
        List.getElem?_append_right (by omega), Nat.add_sub_cancel_left, hsum,
        value_put_inside hsecond]
    · rw [value_put_outside (.inr (by omega)), value_put_outside (.inr (by omega)),
        value_put_outside (.inr (by rw [List.length_append]; omega))]
  change ({ m with value := _ } : PagedMemory α) = { m with value := _ }
  rw [PagedMemory.mk.injEq]
  exact ⟨rfl, rfl, hsame⟩

theorem values_put : (m.put a data).values a data.length = data := by
  apply List.ext_getElem?
  intro i
  by_cases hi : i < data.length
  · rw [values, List.getElem?_map, List.getElem?_range hi, Option.map_some, value_put_inside hi]
  · rw [List.getElem?_eq_none (by rw [length_values]; omega),
      List.getElem?_eq_none (by omega)]

/-- A part of what was put is read back. -/
theorem values_put_inside {start : ℕ} (h : start + n ≤ data.length) :
    (m.put a data).values (a + start) n = (data.drop start).take n := by
  apply List.ext_getElem?
  intro i
  by_cases hi : i < n
  · have hsum : a + start + i = a + (start + i) := by omega
    rw [values, List.getElem?_map, List.getElem?_range hi, Option.map_some, hsum,
      value_put_inside (by omega), List.getElem?_take_of_lt hi, List.getElem?_drop]
  · rw [List.getElem?_eq_none (by rw [length_values]; omega),
      List.getElem?_eq_none (by rw [List.length_take]; omega)]

/-- To put what is there already changes nothing. -/
theorem put_values : m.put a (m.values a n) = m := by
  have hsame : (m.put a (m.values a n)).value = m.value := by
    funext x
    by_cases hx : x < a ∨ a + (m.values a n).length ≤ x
    · exact value_put_outside hx
    · rw [length_values] at hx
      obtain ⟨i, rfl⟩ := Nat.exists_eq_add_of_le (show a ≤ x by omega)
      have hi : i < n := by omega
      rw [← Option.some.injEq, value_put_inside (by rw [length_values]; exact hi), values,
        List.getElem?_map, List.getElem?_range hi, Option.map_some]
  change ({ m with value := _ } : PagedMemory α) = m
  cases m
  rw [PagedMemory.mk.injEq]
  exact ⟨rfl, rfl, hsame⟩

theorem values_put_outside {b : ℕ} (h : b + n ≤ a ∨ a + data.length ≤ b) :
    (m.put a data).values b n = m.values b n := by
  rw [values, values]
  refine List.map_congr_left fun i hi => value_put_outside ?_
  rw [List.mem_range] at hi
  omega

/-- Places of one page are mapped together. -/
theorem mapped_page (hn : 0 < n) (hpage : n ≤ m.pageSize - a % m.pageSize) (hk : 0 < k)
    (hle : k ≤ n) : m.Mapped a n ↔ m.Mapped a k := by
  have hsame : ∀ i, i < n → (a + i) / m.pageSize = a / m.pageSize := by
    intro i hi
    have hdiv := Nat.div_add_mod a m.pageSize
    have hlt := Nat.mod_lt a m.pageSize_pos
    refine Nat.div_eq_of_lt_le ?_ ?_
    · rw [Nat.mul_comm]
      omega
    · rw [Nat.succ_mul, Nat.mul_comm]
      omega
  refine ⟨fun h => h.mono hle, fun h i hi => ?_⟩
  have hfirst := h 0 hk
  rw [hsame 0 hn] at hfirst
  rw [hsame i hi]
  exact hfirst

end PagedMemory

end NeoProot
