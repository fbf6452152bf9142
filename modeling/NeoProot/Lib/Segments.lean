import Mathlib.Data.List.Basic
import Mathlib.Data.List.Infix

/-!
# Separated names

A name is a list of letters in which one letter `sep` separates the segments, as
the slash does in an absolute path.  `segments` cuts a name at every separator
and ignores one trailing separator; `flat` writes segments back, each behind a
separator of its own.  A segment may be empty: two separators in a row enclose
one.

The prefix order on segment lists is the order a lookup by longest prefix needs.
`flat_append_iff` says that it is the order of the written names as long as the
longer name goes on with a separator.

## Main definitions

* `flat sep cs` — the segments `cs`, each preceded by `sep`.
* `cut sep s` — what stands before the first separator, and the segments.
* `body sep s` — `s` without one trailing separator.
* `segments sep s` — the segments of `s`.
-/

namespace NeoProot.Segments

variable {α : Type*} (sep : α)
variable {cs ds : List (List α)}

/-- The segments `cs`, each preceded by the separator. -/
def flat (cs : List (List α)) : List α := cs.flatMap (sep :: ·)

/-- No segment contains the separator. -/
def SepFree (cs : List (List α)) : Prop := ∀ c ∈ cs, sep ∉ c

@[simp] theorem flat_nil : flat sep ([] : List (List α)) = [] := rfl

@[simp] theorem flat_cons (c : List α) (cs : List (List α)) :
    flat sep (c :: cs) = sep :: c ++ flat sep cs := rfl

@[simp] theorem flat_append (cs ds : List (List α)) :
    flat sep (cs ++ ds) = flat sep cs ++ flat sep ds := by
  simp [flat]

theorem flat_length_le (h : cs <+: ds) : (flat sep cs).length ≤ (flat sep ds).length := by
  obtain ⟨es, rfl⟩ := h
  simp

variable [DecidableEq α]

/-- The letters before the first separator, and the segments after it. -/
def cut : List α → List α × List (List α)
  | [] => ([], [])
  | c :: s =>
    let (cur, cs) := cut s
    if c = sep then ([], cur :: cs) else (c :: cur, cs)

/-- A name without one trailing separator. -/
def body (s : List α) : List α := if s.getLast? = some sep then s.dropLast else s

/-- The segments of a name that starts with a separator. -/
def segments (s : List α) : List (List α) := (cut sep (body sep s)).2

@[simp] theorem cut_nil : cut sep ([] : List α) = ([], []) := rfl

theorem cut_sep (s : List α) : cut sep (sep :: s) = ([], (cut sep s).1 :: (cut sep s).2) := by
  simp [cut]

theorem cut_letter {c : α} (h : c ≠ sep) (s : List α) :
    cut sep (c :: s) = (c :: (cut sep s).1, (cut sep s).2) := by
  simp [cut, h]

/-- Writing the pieces of a name back gives the name. -/
theorem cut_flat (s : List α) : (cut sep s).1 ++ flat sep (cut sep s).2 = s := by
  induction s with
  | nil => rfl
  | cons c s ih =>
    by_cases hc : c = sep
    · subst hc
      simpa [cut_sep] using ih
    · simpa [cut_letter sep hc] using ih

theorem cut_sepFree (s : List α) : sep ∉ (cut sep s).1 ∧ SepFree sep (cut sep s).2 := by
  induction s with
  | nil => simp [SepFree]
  | cons c s ih =>
    by_cases hc : c = sep
    · subst hc
      simpa [cut_sep, SepFree] using ih
    · simpa [cut_letter sep hc, Ne.symm hc] using ih

/-- Cutting undoes writing when the segments contain no separator. -/
theorem cut_append_flat {pre : List α} (hpre : sep ∉ pre) (hcs : SepFree sep cs) :
    cut sep (pre ++ flat sep cs) = (pre, cs) := by
  induction pre with
  | nil =>
    induction cs with
    | nil => rfl
    | cons c cs ih =>
      have hc : sep ∉ c := hcs c (by simp)
      have hrest : cut sep (flat sep cs) = ([], cs) := by
        simpa using ih fun d hd => hcs d (by simp [hd])
      have hword : ∀ w : List α, sep ∉ w →
          cut sep (w ++ flat sep cs) = (w, cs) := by
        intro w hw
        induction w with
        | nil => simpa using hrest
        | cons a w ihw =>
          have ha : a ≠ sep := fun h => hw (by simp [h])
          rw [List.cons_append, cut_letter sep ha, ihw fun h => hw (by simp [h])]
      simp [cut_sep, hword c hc]
  | cons a pre ih =>
    have ha : a ≠ sep := fun h => hpre (by simp [h])
    rw [List.cons_append, cut_letter sep ha, ih fun h => hpre (by simp [h])]

theorem cut_flat_eq (hcs : SepFree sep cs) : cut sep (flat sep cs) = ([], cs) :=
  cut_append_flat sep List.not_mem_nil hcs

@[simp] theorem body_append_sep (s : List α) : body sep (s ++ [sep]) = s := by
  simp [body]

theorem body_of_getLast?_ne {s : List α} (h : s.getLast? ≠ some sep) : body sep s = s := by
  simp [body, h]

/-- A name is its body, with or without one more separator. -/
theorem eq_body (s : List α) : s = body sep s ∨ s = body sep s ++ [sep] := by
  by_cases h : s.getLast? = some sep
  · right
    obtain ⟨t, rfl⟩ := List.getLast?_eq_some_iff.1 h
    simp
  · exact .inl (body_of_getLast?_ne sep h).symm

theorem body_isPrefix (s : List α) : body sep s <+: s := by
  rcases eq_body sep s with h | h
  · exact h ▸ List.prefix_rfl
  · exact ⟨[sep], h.symm⟩

theorem segments_sepFree (s : List α) : SepFree sep (segments sep s) :=
  (cut_sepFree sep (body sep s)).2

/-- The body of an absolute name is its segments written out. -/
theorem flat_segments {s : List α} (h : s.head? = some sep) :
    flat sep (segments sep s) = body sep s := by
  have hbody : (body sep s).head? = some sep ∨ body sep s = [] := by
    rcases eq_body sep s with hs | hs
    · exact .inl (hs ▸ h)
    · cases hb : body sep s with
      | nil => exact .inr rfl
      | cons a t => left; rw [hs, hb] at h; simpa using h
  have hpre : (cut sep (body sep s)).1 = [] := by
    rcases hbody with hb | hb
    · obtain ⟨t, ht⟩ := List.head?_eq_some_iff.1 hb
      rw [ht, cut_sep]
    · rw [hb, cut_nil]
  simpa [segments, hpre] using cut_flat sep (body sep s)

/-- The segments written out have no trailing separator to ignore, unless the
last segment is empty. -/
theorem segments_flat (hcs : SepFree sep cs) (hlast : cs.getLast? ≠ some []) :
    segments sep (flat sep cs) = cs := by
  have hbody : body sep (flat sep cs) = flat sep cs := by
    apply body_of_getLast?_ne
    rcases List.eq_nil_or_concat cs with rfl | ⟨ds, d, rfl⟩
    · simp
    · rcases List.eq_nil_or_concat d with rfl | ⟨e, a, rfl⟩
      · simp at hlast
      · have ha : a ≠ sep := fun h => hcs (e ++ [a]) (by simp) (by simp [h])
        have hend : (sep :: (e ++ [a])).getLast? = some a := by
          rw [← List.cons_append, List.getLast?_concat]
        simp [hend, ha]
  rw [segments, hbody, cut_flat_eq sep hcs]

/-- A written name extends another at a separator exactly when its segments
extend the other's. -/
theorem flat_append_iff (hcs : SepFree sep cs) (hds : SepFree sep ds) {t : List α}
    (ht : t = [] ∨ t.head? = some sep) :
    flat sep ds = flat sep cs ++ t ↔ ∃ es, ds = cs ++ es ∧ t = flat sep es := by
  constructor
  · intro h
    have hcut := cut_flat_eq sep hds
    rw [h] at hcut
    have htcut : cut sep t = ([], (cut sep t).2) := by
      rcases ht with rfl | ht
      · rfl
      · obtain ⟨u, rfl⟩ := List.head?_eq_some_iff.1 ht
        rw [cut_sep]
    have hsplit : t = flat sep (cut sep t).2 := by
      have := cut_flat sep t
      rw [htcut] at this
      simpa using this.symm
    refine ⟨(cut sep t).2, ?_, hsplit⟩
    have hall : SepFree sep (cs ++ (cut sep t).2) := by
      intro c hc
      rcases List.mem_append.1 hc with hc | hc
      · exact hcs c hc
      · exact (cut_sepFree sep t).2 c hc
    have h2 := cut_flat_eq sep hall
    rw [flat_append, ← hsplit, hcut] at h2
    exact (Prod.mk.inj h2).2
  · rintro ⟨es, rfl, rfl⟩
    simp

theorem flat_injective (hcs : SepFree sep cs) (hds : SepFree sep ds)
    (h : flat sep cs = flat sep ds) : cs = ds := by
  obtain ⟨es, hes, hnil⟩ := (flat_append_iff sep hcs hds (t := []) (.inl rfl)).1 (by simpa using h.symm)
  cases es with
  | nil => simpa using hes.symm
  | cons e es => simp at hnil

end NeoProot.Segments
