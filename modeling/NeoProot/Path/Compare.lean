import NeoProot.Basic
import NeoProot.Lib.Segments
import NeoProot.Lib.DeepFirst

/-!
# Comparing path names

`comparePaths2` looks at characters: it drops one trailing slash of either path,
requires a component boundary where the shorter one ends, and compares the common
part.  For absolute paths this is the prefix order on their components, which is
what `comparePaths2_eq` states; every later module argues about components.

## Main definitions

* `comparePaths2`, `comparePaths` — the comparison of `path/path.c`.
* `comps p` — the components of an absolute path.
-/

namespace NeoProot
open Segments

/-- `enum Comparison`. -/
inductive Comparison
  | pathsAreEqual
  | path1IsPrefix
  | path2IsPrefix
  | pathsAreNotComparable
  deriving DecidableEq, Repr

/-- The length of a path without one trailing slash. -/
def trimmedLength (path : CStr) : ℕ :=
  if path.getLast? = some '/' then path.length - 1 else path.length

/-- `compare_paths2`.  Its callers pass the length of each string along with it,
so the lengths are read off the strings here. -/
def comparePaths2 (path1 path2 : CStr) : Comparison :=
  if path1.length = 0 ∨ path2.length = 0 then .pathsAreNotComparable
  else
    let len1 := trimmedLength path1
    let len2 := trimmedLength path2
    -- The character where the shorter path ends; `none` is the terminating NUL.
    let (minLen, stop) := if len1 < len2 then (len1, path2[len1]?) else (len2, path1[len2]?)
    if stop ≠ some '/' ∧ stop ≠ none then .pathsAreNotComparable
    else if path1.take minLen ≠ path2.take minLen then .pathsAreNotComparable
    else if len1 = len2 then .pathsAreEqual
    else if len1 < len2 then .path1IsPrefix
    else .path2IsPrefix

/-- `compare_paths`. -/
def comparePaths (path1 path2 : CStr) : Comparison := comparePaths2 path1 path2

/-- The components of an absolute path. -/
def comps (path : CStr) : List CStr := segments '/' path

/-- The prefix order on components, as the four outcomes of a comparison. -/
def compareComps (cs ds : List CStr) : Comparison :=
  if cs = ds then .pathsAreEqual
  else if cs <+: ds then .path1IsPrefix
  else if ds <+: cs then .path2IsPrefix
  else .pathsAreNotComparable

theorem trimmedLength_eq (path : CStr) : trimmedLength path = (body '/' path).length := by
  unfold trimmedLength body
  by_cases h : path.getLast? = some '/'
  · rw [if_pos h, if_pos h, List.length_dropLast]
  · rw [if_neg h, if_neg h]

theorem take_trimmedLength (path : CStr) : path.take (trimmedLength path) = body '/' path := by
  rw [trimmedLength_eq]
  exact (List.prefix_iff_eq_take.1 (body_isPrefix '/' path)).symm

/-- Where a path is cut at a length its body still reaches, the next character is
a slash or the end exactly when the rest of the body is empty or starts with a
slash. -/
private theorem boundary_iff {path : CStr} {n : ℕ} (hn : n ≤ (body '/' path).length) :
    (path[n]? = some '/' ∨ path[n]? = none) ↔
      ((body '/' path).drop n = [] ∨ ((body '/' path).drop n).head? = some '/') := by
  have hdrop : path[n]? = (path.drop n).head? := by rw [List.head?_drop]
  rcases eq_body '/' path with h | h
  · rw [hdrop, ← h]
    cases path.drop n <;> simp
  · have hpath : path.drop n = (body '/' path).drop n ++ ['/'] := by
      conv_lhs => rw [h]
      rw [List.drop_append_of_le_length hn]
    rw [hdrop, hpath]
    cases (body '/' path).drop n <;> simp

/-- One written path ends inside another, at a component boundary, exactly when
its components are a prefix. -/
private theorem prefix_iff_boundary {p q : CStr} (hp : IsAbsolute p) (hq : IsAbsolute q) :
    comps p <+: comps q ↔
      body '/' p = (body '/' q).take (body '/' p).length ∧
        ((body '/' q).drop (body '/' p).length = [] ∨
          ((body '/' q).drop (body '/' p).length).head? = some '/') := by
  have hfp := flat_segments '/' hp
  have hfq := flat_segments '/' hq
  constructor
  · rintro ⟨es, hes⟩
    have hflat : body '/' q = body '/' p ++ flat '/' es := by
      rw [← hfq, ← hfp, ← flat_append]
      exact congrArg _ hes.symm
    rw [hflat]
    refine ⟨by simp, ?_⟩
    cases es <;> simp
  · rintro ⟨htake, hdrop⟩
    have hsplit : body '/' q = body '/' p ++ (body '/' q).drop (body '/' p).length := by
      conv_lhs => rw [← List.take_append_drop (body '/' p).length (body '/' q), ← htake]
    rw [← hfp, ← hfq] at hsplit
    obtain ⟨es, hes, -⟩ := (flat_append_iff '/' (segments_sepFree '/' p) (segments_sepFree '/' q)
      (by rw [hfp, hfq]; exact hdrop)).1 hsplit
    exact ⟨es, hes.symm⟩

theorem comps_eq_iff {p q : CStr} (hp : IsAbsolute p) (hq : IsAbsolute q) :
    comps p = comps q ↔ body '/' p = body '/' q := by
  rw [← flat_segments '/' hp, ← flat_segments '/' hq]
  exact ⟨fun h => congrArg _ h,
    fun h => flat_injective '/' (segments_sepFree '/' p) (segments_sepFree '/' q) h⟩

theorem body_length_le {p q : CStr} (hp : IsAbsolute p) (hq : IsAbsolute q)
    (h : comps p <+: comps q) : (body '/' p).length ≤ (body '/' q).length := by
  rw [← flat_segments '/' hp, ← flat_segments '/' hq]
  exact flat_length_le '/' h

/-- **The character comparison is the prefix order on components.** -/
theorem comparePaths2_eq {p q : CStr} (hp : IsAbsolute p) (hq : IsAbsolute q) :
    comparePaths2 p q = compareComps (comps p) (comps q) := by
  have hpne : p.length ≠ 0 := by rintro h; simp [List.length_eq_zero_iff.1 h, IsAbsolute] at hp
  have hqne : q.length ≠ 0 := by rintro h; simp [List.length_eq_zero_iff.1 h, IsAbsolute] at hq
  have hwrong : ∀ {a b : CStr}, IsAbsolute a → IsAbsolute b →
      (body '/' a).length < (body '/' b).length → ¬ comps b <+: comps a :=
    fun ha hb hlt h => absurd (body_length_le hb ha h) (by omega)
  unfold comparePaths2 compareComps
  rw [if_neg (by omega)]
  simp only [trimmedLength_eq]
  by_cases hlt : (body '/' p).length < (body '/' q).length
  · have hne : comps p ≠ comps q := fun h => by
      rw [(comps_eq_iff hp hq).1 h] at hlt
      omega
    have hpre := prefix_iff_boundary hp hq
    have hb := boundary_iff hlt.le
    have htp : p.take (body '/' p).length = body '/' p := by
      rw [← trimmedLength_eq, take_trimmedLength]
    have htq : q.take (body '/' p).length = (body '/' q).take (body '/' p).length := by
      rw [← take_trimmedLength q, List.take_take, trimmedLength_eq, Nat.min_eq_left hlt.le]
    simp only [hlt, if_true, if_neg hne, if_neg (Nat.ne_of_lt hlt), htp, htq,
      if_neg (hwrong hp hq hlt)]
    by_cases hcs : comps p <+: comps q
    · obtain ⟨h1, h2⟩ := hpre.1 hcs
      rw [if_pos hcs, if_neg (by rcases hb.2 h2 with h | h <;> simp [h]), if_neg (by simpa using h1)]
    · rw [if_neg hcs]
      by_cases hbd : q[(body '/' p).length]? = some '/' ∨ q[(body '/' p).length]? = none
      · rw [if_neg (by rcases hbd with h | h <;> simp [h]), if_pos]
        exact fun h => hcs (hpre.2 ⟨h, hb.1 hbd⟩)
      · rw [if_pos (by simpa [not_or] using hbd)]
  · have hle : (body '/' q).length ≤ (body '/' p).length := by omega
    have hpre := prefix_iff_boundary hq hp
    have hb := boundary_iff hle
    have htq : q.take (body '/' q).length = body '/' q := by
      rw [← trimmedLength_eq, take_trimmedLength]
    have htp : p.take (body '/' q).length = (body '/' p).take (body '/' q).length := by
      rw [← take_trimmedLength p, List.take_take, trimmedLength_eq, Nat.min_eq_left hle]
    simp only [hlt, if_false, htp, htq]
    by_cases hcs : comps q <+: comps p
    · obtain ⟨h1, h2⟩ := hpre.1 hcs
      rw [if_neg (by rcases hb.2 h2 with h | h <;> simp [h]), if_neg (by simpa using h1.symm)]
      by_cases heq : (body '/' p).length = (body '/' q).length
      · have hpq : comps p = comps q := by
          rw [comps_eq_iff hp hq, h1, ← heq, List.take_length]
        rw [if_pos heq, if_pos hpq]
      · have hne : comps p ≠ comps q := fun h => heq (by rw [(comps_eq_iff hp hq).1 h])
        rw [if_neg heq, if_neg hne, if_neg (hwrong hq hp (by omega)), if_pos hcs]
    · have hne : comps p ≠ comps q := fun h => hcs (h ▸ List.prefix_rfl)
      have hnp : ¬ comps p <+: comps q := fun h => by
        have hlen := body_length_le hp hq h
        obtain ⟨h1, h2⟩ := (prefix_iff_boundary hp hq).1 h
        exact hne ((comps_eq_iff hp hq).2 (by rw [h1, Nat.le_antisymm hlen hle, List.take_length]))
      rw [if_neg hne, if_neg hnp, if_neg hcs]
      by_cases hbd : p[(body '/' q).length]? = some '/' ∨ p[(body '/' q).length]? = none
      · rw [if_neg (by rcases hbd with h | h <;> simp [h]), if_pos]
        exact fun h => hcs (hpre.2 ⟨h.symm, hb.1 hbd⟩)
      · rw [if_pos (by simpa [not_or] using hbd)]

end NeoProot
