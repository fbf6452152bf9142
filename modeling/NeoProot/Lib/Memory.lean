import Mathlib.Data.List.Range

/-!
# A memory and what is put at its start

A buffer that a caller hands over is seen from its start: a value at each place, without an end.
`holds_iff` says when a memory holds a list there.

## Main definitions

* `Memory` — the values behind an address.
* `Memory.overwrite` — some values are put at the start.
* `Memory.read` — so many values from the start.
-/

namespace NeoProot

/-- The values behind an address. -/
abbrev Memory (α : Type*) := ℕ → α

namespace Memory

variable {α : Type*}

/-- Some values are put at the start. -/
def overwrite (memory : Memory α) (data : List α) : Memory α :=
  fun i => data[i]?.getD (memory i)

/-- So many values from the start. -/
def read (memory : Memory α) (n : ℕ) : List α := (List.range n).map memory

variable (memory : Memory α) {data : List α} {i n : ℕ}

theorem overwrite_of_lt (h : i < data.length) : some (memory.overwrite data i) = data[i]? := by
  rw [overwrite, List.getElem?_eq_getElem h, Option.getD_some]

theorem overwrite_of_le (h : data.length ≤ i) : memory.overwrite data i = memory i := by
  rw [overwrite, List.getElem?_eq_none h, Option.getD_none]

@[simp] theorem length_read : (memory.read n).length = n := by
  rw [read, List.length_map, List.length_range]

theorem getElem?_read (h : i < n) : (memory.read n)[i]? = some (memory i) := by
  rw [read, List.getElem?_map, List.getElem?_range h, Option.map_some]

/-- A memory holds the first values of a list if each place does. -/
theorem read_eq_take_iff (hn : n ≤ data.length) :
    memory.read n = data.take n ↔ ∀ i, i < n → some (memory i) = data[i]? := by
  constructor
  · intro h i hi
    rw [← memory.getElem?_read hi, h, List.getElem?_take_of_lt hi]
  · intro h
    apply List.ext_getElem?
    intro i
    by_cases hi : i < n
    · rw [memory.getElem?_read hi, List.getElem?_take_of_lt hi]
      exact h i hi
    · rw [List.getElem?_eq_none (by rw [length_read]; omega),
        List.getElem?_eq_none (by rw [List.length_take]; omega)]

end Memory

end NeoProot
