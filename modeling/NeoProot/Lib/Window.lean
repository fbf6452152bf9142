import Mathlib.Data.List.Basic
import Mathlib.Order.Nat

/-!
# Windows of an array

The part of an array between two marks, used as a queue: values are put behind the second mark
and taken at the first.  The array can be packed, so that the window begins at its front, and
made larger.

## Main definitions

* `Window α` — an array with its two marks.
* `Window.contents` — the values between them.
* `put`, `advance`, `pack`, `enlarge` — the operations, each with what it makes of the contents.
-/

namespace NeoProot

/-- An array and the part of it that is in use. -/
structure Window (α : Type*) where
  data : List α
  start : ℕ
  stop : ℕ
  start_le : start ≤ stop
  stop_le : stop ≤ data.length

namespace Window

variable {α : Type*}

/-- The values in use. -/
def contents (w : Window α) : List α := (w.data.take w.stop).drop w.start

/-- How many there are. -/
def length (w : Window α) : ℕ := w.stop - w.start

/-- How large the array is. -/
def capacity (w : Window α) : ℕ := w.data.length

@[simp] theorem length_contents (w : Window α) : w.contents.length = w.length := by
  have hstop := w.stop_le
  rw [contents, List.length_drop, List.length_take, length]
  omega

theorem length_le_capacity (w : Window α) : w.length ≤ w.capacity := by
  have hstop := w.stop_le
  rw [length, capacity]
  omega

/-- Nothing in an array of no size. -/
def empty : Window α := ⟨[], 0, 0, le_rfl, le_rfl⟩

/-- Put values behind the last. -/
def put (w : Window α) (xs : List α) (h : w.stop + xs.length ≤ w.capacity) : Window α where
  data := w.data.take w.stop ++ (xs ++ w.data.drop (w.stop + xs.length))
  start := w.start
  stop := w.stop + xs.length
  start_le := w.start_le.trans (Nat.le_add_right _ _)
  stop_le := by
    rw [capacity] at h
    simp only [List.length_append, List.length_take, List.length_drop]
    omega

@[simp] theorem contents_put (w : Window α) (xs : List α)
    (h : w.stop + xs.length ≤ w.capacity) : (w.put xs h).contents = w.contents ++ xs := by
  have hlen : (w.data.take w.stop).length = w.stop := List.length_take_of_le w.stop_le
  have htake : (w.put xs h).data.take (w.put xs h).stop = w.data.take w.stop ++ xs := by
    simp only [put]
    rw [← List.append_assoc]
    apply List.take_left'
    rw [List.length_append, hlen]
  rw [contents, htake, contents]
  apply List.drop_append_of_le_length
  rw [hlen]
  exact w.start_le

/-- Take the first values away. -/
def advance (w : Window α) (n : ℕ) (h : n ≤ w.length) : Window α where
  data := w.data
  start := w.start + n
  stop := w.stop
  start_le := by
    have hle := w.start_le
    rw [length] at h
    omega
  stop_le := w.stop_le

@[simp] theorem contents_advance (w : Window α) (n : ℕ) (h : n ≤ w.length) :
    (w.advance n h).contents = w.contents.drop n := by
  rw [contents, contents, List.drop_drop]
  rfl

/-- With nothing in use, begin at the front. -/
def rewind (w : Window α) : Window α :=
  if w.start = w.stop then ⟨w.data, 0, 0, le_rfl, Nat.zero_le _⟩ else w

@[simp] theorem contents_rewind (w : Window α) : w.rewind.contents = w.contents := by
  unfold rewind
  split
  · rename_i hempty
    have hnil : w.contents = [] := by
      apply List.eq_nil_of_length_eq_zero
      rw [length_contents, length]
      omega
    rw [hnil]
    rfl
  · rfl

/-- Move the values in use to the front. -/
def pack (w : Window α) : Window α where
  data := w.contents ++ w.data.drop w.length
  start := 0
  stop := w.length
  start_le := Nat.zero_le _
  stop_le := by
    rw [List.length_append, length_contents]
    exact Nat.le_add_right _ _

@[simp] theorem contents_pack (w : Window α) : w.pack.contents = w.contents := by
  rw [contents, pack]
  exact List.take_left' w.length_contents

@[simp] theorem capacity_pack (w : Window α) : w.pack.capacity = w.capacity := by
  have hle := w.length_le_capacity
  rw [capacity] at hle
  simp only [capacity, pack, List.length_append, length_contents, List.length_drop]
  omega

/-- Make the array larger; what is in the new part does not matter. -/
def enlarge (w : Window α) (n : ℕ) (fill : α) : Window α where
  data := w.data ++ List.replicate (n - w.capacity) fill
  start := w.start
  stop := w.stop
  start_le := w.start_le
  stop_le := by
    rw [List.length_append]
    exact w.stop_le.trans (Nat.le_add_right _ _)

@[simp] theorem contents_enlarge (w : Window α) (n : ℕ) (fill : α) :
    (w.enlarge n fill).contents = w.contents := by
  rw [contents, contents, enlarge]
  simp only
  rw [List.take_append_of_le_length w.stop_le]

theorem capacity_enlarge (w : Window α) (n : ℕ) (fill : α) :
    (w.enlarge n fill).capacity = max w.capacity n := by
  simp only [capacity, enlarge, List.length_append, List.length_replicate]
  omega

end Window

end NeoProot
