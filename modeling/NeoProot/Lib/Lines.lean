import Mathlib.Data.List.DropRight
import Mathlib.Data.List.Basic
import Mathlib.Algebra.Ring.Nat

/-!
# Texts of lines

A text of lines is a list of lines, each followed by a separator.  `lines` reads
such a text back, also after its trailing separators were cut and one was put
back, as a command substitution and a here-document do: only empty lines at the
end are lost.

## Main definitions

* `unlines sep ls` — the text of the lines.
* `lines sep text` — the lines that end with a separator.
* `chomp sep text` — the text without trailing separators.
* `readLines sep read text` — what a reader of lines makes of a text that ends with one.
-/

namespace NeoProot.Lines

variable {α : Type*} {sep : α}
variable {l text : List α} {β : Type*}

/-- The text of some lines. -/
def unlines (sep : α) (ls : List (List α)) : List α := ls.flatMap (· ++ [sep])

@[simp] theorem unlines_nil : unlines sep [] = [] := rfl

@[simp] theorem unlines_cons (l : List α) (ls : List (List α)) :
    unlines sep (l :: ls) = l ++ sep :: unlines sep ls := by
  simp [unlines]

@[simp] theorem unlines_append (ls ms : List (List α)) :
    unlines sep (ls ++ ms) = unlines sep ls ++ unlines sep ms :=
  List.flatMap_append

/-- Where a text begins with a line, the front of it that has been read holds the whole line, or
no separator at all. -/
theorem front_cases {buffer tail rest : List α} (h : buffer ++ tail = l ++ sep :: rest)
    (hl : sep ∉ l) :
    (∃ later, buffer = l ++ sep :: later ∧ rest = later ++ tail) ∨
      sep ∉ buffer ∧ buffer.length ≤ l.length ∧ tail ≠ [] := by
  obtain ⟨front, hfront, hrest⟩ | ⟨front, hfront, hrest⟩ := List.append_eq_append_iff.1 h
  · right
    rw [hfront, List.mem_append, not_or] at hl
    rw [hfront, hrest, List.length_append]
    exact ⟨hl.1, Nat.le_add_right _ _, by simp⟩
  · cases front with
    | nil =>
      right
      rw [List.append_nil] at hfront
      rw [List.nil_append] at hrest
      rw [hfront, ← hrest]
      exact ⟨hl, le_rfl, List.cons_ne_nil _ _⟩
    | cons b later =>
      rw [List.cons_append, List.cons.injEq] at hrest
      rw [← hrest.1] at hfront
      exact .inl ⟨later, hfront, hrest.2⟩

variable [DecidableEq α]

theorem takeWhile_line (h : sep ∉ l) (rest : List α) :
    (l ++ sep :: rest).takeWhile (· ≠ sep) = l := by
  have hall : ∀ b ∈ l, decide (b ≠ sep) = true := by
    intro b hb
    simpa using fun heq : b = sep => h (heq ▸ hb)
  rw [List.takeWhile_append_of_pos hall, List.takeWhile_cons_of_neg (by simp), List.append_nil]

/-- The lines of a text; what follows the last separator is none. -/
def lines (sep : α) (text : List α) : List (List α) := (text.splitOn sep).dropLast

/-- A text without its trailing separators. -/
def chomp (sep : α) (text : List α) : List α := text.rdropWhile (· = sep)

/-- No line has a separator in it. -/
theorem not_mem_of_mem_splitOn (h : l ∈ text.splitOn sep) : sep ∉ l := by
  induction text generalizing l with
  | nil =>
    rw [List.splitOn_nil, List.mem_singleton] at h
    rw [h]
    exact List.not_mem_nil
  | cons x xs ih =>
    rw [List.splitOn_cons_eq_if_modifyHead] at h
    split at h
    · rcases List.mem_cons.1 h with rfl | h
      · exact List.not_mem_nil
      · exact ih h
    · rename_i hx
      cases hs : xs.splitOn sep with
      | nil => exact absurd hs (List.splitOn_ne_nil sep xs)
      | cons m ms =>
        rw [hs, List.modifyHead_cons] at h
        rcases List.mem_cons.1 h with rfl | h
        · rw [List.mem_cons, not_or]
          refine ⟨?_, ih (hs ▸ List.mem_cons_self)⟩
          rintro rfl
          exact hx (by simp)
        · exact ih (hs ▸ List.mem_cons_of_mem m h)

theorem not_mem_of_mem_lines (h : l ∈ lines sep text) : sep ∉ l :=
  not_mem_of_mem_splitOn (List.dropLast_subset _ h)

/-- The lines of a text read back. -/
theorem lines_unlines {ls : List (List α)} (h : ∀ l ∈ ls, sep ∉ l) :
    lines sep (unlines sep ls) = ls := by
  have hsplit : (unlines sep ls).splitOn sep = ls ++ [[]] := by
    induction ls with
    | nil => rfl
    | cons l ls ih =>
      rw [unlines_cons, List.splitOn_append_cons_self_of_not_mem (h l List.mem_cons_self),
        ih fun m hm => h m (List.mem_cons_of_mem l hm), List.cons_append]
  rw [lines, hsplit, List.dropLast_concat]

/-- Without its trailing separators a text keeps its lines up to the last that is not empty. -/
theorem chomp_unlines {ls : List (List α)} (h : ∀ l ∈ ls, sep ∉ l) (hne : ∃ l ∈ ls, l ≠ []) :
    chomp sep (unlines sep ls) ++ [sep] = unlines sep (ls.rdropWhile (· = [])) := by
  induction ls using List.reverseRecOn with
  | nil =>
    obtain ⟨l, hl, -⟩ := hne
    cases hl
  | append_singleton ls l ih =>
    have hcut : chomp sep (unlines sep (ls ++ [l])) = chomp sep (unlines sep ls ++ l) := by
      rw [unlines_append, unlines_cons, unlines_nil, chomp, ← List.append_assoc,
        List.rdropWhile_concat_pos _ _ _ (by simp)]
      rfl
    rw [hcut]
    by_cases hl : l = []
    · rw [hl, List.append_nil, List.rdropWhile_concat_pos _ _ _ (by simp)]
      refine ih (fun m hm => h m (List.mem_append_left _ hm)) ?_
      obtain ⟨m, hm, hmne⟩ := hne
      rcases List.mem_append.1 hm with hm | hm
      · exact ⟨m, hm, hmne⟩
      · rw [List.mem_singleton] at hm
        exact absurd (hm.trans hl) hmne
    · rw [List.rdropWhile_concat_neg _ _ _ (by simpa using hl), unlines_append]
      have hlast : chomp sep (unlines sep ls ++ l) = unlines sep ls ++ l := by
        rw [chomp, List.rdropWhile_eq_self_iff]
        intro hnil
        rw [List.getLast_append_of_ne_nil _ hl, decide_eq_true_eq]
        intro heq
        exact h l (List.mem_append_right _ (List.mem_singleton_self l))
          (heq ▸ List.getLast_mem hl)
      rw [hlast, unlines_cons, unlines_nil, List.append_assoc]

/-- Cutting the end of a list cuts its first element only with all the others. -/
theorem rdropWhile_cons (p : β → Bool) (x : β) (l : List β) :
    (x :: l).rdropWhile p = if p x ∧ l.rdropWhile p = [] then [] else x :: l.rdropWhile p := by
  induction l using List.reverseRecOn with
  | nil =>
    rw [List.rdropWhile_singleton]
    simp
  | append_singleton l y ih =>
    rw [← List.cons_append, List.rdropWhile_concat, List.rdropWhile_concat]
    by_cases hy : p y
    · rw [if_pos hy, if_pos hy, ih]
    · rw [if_neg hy, if_neg hy, if_neg (by simp)]
      rfl

/-- Between its separators a text is as it was. -/
theorem unlines_splitOn (text : List α) : unlines sep (text.splitOn sep) = text ++ [sep] := by
  induction text with
  | nil => rfl
  | cons x xs ih =>
    rw [List.splitOn_cons_eq_if_modifyHead]
    split
    · rename_i hx
      rw [unlines_cons, ih, eq_of_beq hx]
      rfl
    · cases hs : xs.splitOn sep with
      | nil => exact absurd hs (List.splitOn_ne_nil sep xs)
      | cons l ls =>
        rw [hs, unlines_cons] at ih
        rw [List.modifyHead_cons, unlines_cons, List.cons_append, ih, List.cons_append]

/-- A text that ends with a separator is that of its lines. -/
theorem unlines_lines (h : ∀ b ∈ text.getLast?, b = sep) : unlines sep (lines sep text) = text := by
  induction text using List.reverseRecOn with
  | nil => rfl
  | append_singleton text b =>
    have hb : b = sep := h b (by simp)
    have hsplit : (text ++ [b]).splitOn sep = text.splitOn sep ++ [[]] := by
      rw [hb, List.splitOn_append_cons_self, List.splitOn_nil]
    rw [lines, hsplit, List.dropLast_concat, unlines_splitOn, hb]

/-- What a reader of lines makes of a text that ends with one. -/
def readLines {β : Type*} (sep : α) (read : List α → Option β) (text : List α) :
    Option (List β) :=
  if text.getLast?.all (· = sep) then (lines sep text).mapM read else none

/-- A reader that reads all of a list. -/
theorem mapM_eq_some_iff {γ : Type*} {read : β → Option γ} {xs : List β} {ys : List γ} :
    xs.mapM read = some ys ↔
      ∃ ps : List (β × γ), ps.map Prod.fst = xs ∧ ps.map Prod.snd = ys ∧
        ∀ p ∈ ps, read p.1 = some p.2 := by
  induction xs generalizing ys with
  | nil =>
    constructor
    · intro h
      rw [List.mapM_nil, Option.pure_def, Option.some.injEq] at h
      exact ⟨[], rfl, h, by simp⟩
    · intro ⟨ps, hxs, hys, _⟩
      rw [List.map_eq_nil_iff.1 hxs] at hys
      rw [← hys]
      rfl
  | cons x xs ih =>
    rw [List.mapM_cons, Option.bind_eq_bind, Option.bind_eq_some_iff]
    constructor
    · intro ⟨y, hy, h⟩
      rw [Option.bind_eq_bind, Option.bind_eq_some_iff] at h
      obtain ⟨zs, hzs, h⟩ := h
      rw [Option.pure_def, Option.some.injEq] at h
      obtain ⟨ps, hfst, hsnd, hps⟩ := ih.1 hzs
      refine ⟨(x, y) :: ps, by rw [List.map_cons, hfst], by rw [List.map_cons, hsnd, h], ?_⟩
      intro p hp
      obtain rfl | hp := List.mem_cons.1 hp
      · exact hy
      · exact hps p hp
    · intro ⟨ps, hxs, hys, hps⟩
      cases ps with
      | nil => cases hxs
      | cons p ps =>
        rw [List.map_cons, List.cons.injEq] at hxs
        refine ⟨p.2, hxs.1 ▸ hps p List.mem_cons_self, ?_⟩
        have hrest : xs.mapM read = some (ps.map Prod.snd) :=
          ih.2 ⟨ps, hxs.2, rfl, fun q hq => hps q (List.mem_cons_of_mem p hq)⟩
        rw [hrest, ← hys]
        rfl

/-- A reader of lines reads a text that consists of lines it reads. -/
theorem readLines_eq_some_iff {read : List α → Option β} {ys : List β} :
    readLines sep read text = some ys ↔
      ∃ ps : List (List α × β), text = unlines sep (ps.map Prod.fst) ∧ ps.map Prod.snd = ys ∧
        ∀ p ∈ ps, sep ∉ p.1 ∧ read p.1 = some p.2 := by
  constructor
  · intro h
    rw [readLines, ite_eq_iff] at h
    obtain ⟨hlast, h⟩ | ⟨-, h⟩ := h
    · obtain ⟨ps, hfst, hsnd, hps⟩ := mapM_eq_some_iff.1 h
      refine ⟨ps, ?_, hsnd, ?_⟩
      · rw [hfst, unlines_lines]
        simpa [Option.all_eq_true] using hlast
      · intro p hp
        have hmem : p.1 ∈ lines sep text := hfst ▸ List.mem_map_of_mem hp
        exact ⟨not_mem_of_mem_lines hmem, hps p hp⟩
    · cases h
  · intro ⟨ps, htext, hsnd, hps⟩
    have hlines : lines sep text = ps.map Prod.fst := by
      rw [htext, lines_unlines]
      intro l hl
      obtain ⟨p, hp, rfl⟩ := List.mem_map.1 hl
      exact (hps p hp).1
    have hlast : text.getLast?.all (· = sep) = true := by
      rw [htext]
      induction ps using List.reverseRecOn with
      | nil => rfl
      | append_singleton ps p => simp
    rw [readLines, if_pos hlast, hlines]
    exact mapM_eq_some_iff.2 ⟨ps, rfl, hsnd, fun p hp => (hps p hp).2⟩

end NeoProot.Lines
