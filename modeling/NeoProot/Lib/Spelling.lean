import NeoProot.Lib.Segments
import Mathlib.Logic.Relation

/-!
# The spellings of a name

A separated name goes past its pieces one after the other, and neither an empty piece nor
one that is a single dot leads anywhere.  Two names are spellings of one another when a
sequence of single edits takes the one to the other: a separator more, a dot piece more, or
the reverse.  `names_eq_iff` says that this is the same as having the same names.

## Main definitions

* `pieces sep s` — what stands between the separators of a name.
* `names sep dot s` — the pieces that lead somewhere.
* `Respelling`, `Spellings` — one edit, and any number of them.
-/

namespace NeoProot.Segments

variable {α : Type*} (sep dot : α)

/-- One edit that leads nowhere else. -/
inductive Respelling : List α → List α → Prop
  /-- A separator is written twice. -/
  | sep (front rest : List α) : Respelling (front ++ sep :: rest) (front ++ sep :: sep :: rest)
  /-- A dot piece follows a separator. -/
  | dot (front rest : List α) :
    Respelling (front ++ sep :: rest) (front ++ sep :: dot :: sep :: rest)
  /-- A separator ends the name. -/
  | trailingSep (s : List α) : s ≠ [] → Respelling s (s ++ [sep])
  /-- A dot piece ends the name. -/
  | trailingDot (front : List α) : Respelling (front ++ [sep]) (front ++ [sep, dot])

/-- The names differ in such edits only. -/
def Spellings : List α → List α → Prop := Relation.EqvGen (Respelling sep dot)

namespace Spellings

variable {sep dot}

theorem of_edit {s t : List α} (h : Respelling sep dot s t) : Spellings sep dot s t := .rel _ _ h

theorem refl (s : List α) : Spellings sep dot s s := Relation.EqvGen.refl s

theorem symm {s t : List α} (h : Spellings sep dot s t) : Spellings sep dot t s :=
  Relation.EqvGen.symm s t h

theorem trans {s t u : List α} (h : Spellings sep dot s t) (h' : Spellings sep dot t u) :
    Spellings sep dot s u := Relation.EqvGen.trans s t u h h'

end Spellings

variable {sep dot}

/-- The shortest spelling of a list of names. -/
def shortest (sep : α) (cs : List (List α)) : List α := if cs = [] then [sep] else flat sep cs

/-- A separator at the end. -/
theorem spellings_flat_empty (ds : List (List α)) :
    Spellings sep dot (flat sep (ds ++ [[]])) (shortest sep ds) := by
  have hflat : flat sep (ds ++ [[]]) = flat sep ds ++ [sep] := by simp
  rw [hflat, shortest]
  split
  · rename_i hds
    rw [hds]
    exact .refl _
  · rename_i hds
    refine .symm (.of_edit (.trailingSep _ ?_))
    cases ds with
    | nil => exact absurd rfl hds
    | cons d ds => exact List.cons_ne_nil _ _

/-- A piece that leads nowhere, and another one after it. -/
theorem spellings_flat_skip (ds : List (List α)) {c : List α} (hc : c = [] ∨ c = [dot])
    (c' : List α) (cs : List (List α)) :
    Spellings sep dot (flat sep (ds ++ c :: c' :: cs)) (flat sep (ds ++ c' :: cs)) := by
  apply Spellings.symm
  obtain rfl | rfl := hc
  · have hedit : Respelling sep dot _ _ := .sep (flat sep ds) (c' ++ flat sep cs)
    simpa using Spellings.of_edit hedit
  · have hedit : Respelling sep dot _ _ := .dot (flat sep ds) (c' ++ flat sep cs)
    simpa using Spellings.of_edit hedit

variable [DecidableEq α]

section
variable (sep dot)

/-- What stands between the separators. -/
def pieces (s : List α) : List (List α) := (cut sep s).1 :: (cut sep s).2

/-- The pieces that lead somewhere. -/
def names (s : List α) : List (List α) := (pieces sep s).filter fun c => c ≠ [] ∧ c ≠ [dot]

@[simp] theorem pieces_nil : pieces sep ([] : List α) = [[]] := rfl

theorem pieces_append_sep (s t : List α) :
    pieces sep (s ++ sep :: t) = pieces sep s ++ pieces sep t := by
  induction s with
  | nil => simp [pieces, cut_sep]
  | cons c s ih =>
    simp only [pieces, List.cons_append, List.cons.injEq] at ih ⊢
    by_cases hc : c = sep
    · subst hc
      simp [cut_sep, ih.1, ih.2]
    · simp only [cut_letter sep hc, ih.1, ih.2, and_self]

theorem pieces_of_sepFree {c : List α} (hc : sep ∉ c) : pieces sep c = [c] := by
  have hcut : cut sep (c ++ flat sep []) = (c, []) := cut_append_flat sep hc (by simp [SepFree])
  rw [flat_nil, List.append_nil] at hcut
  rw [pieces, hcut]

theorem sepFree_pieces (s : List α) : SepFree sep (pieces sep s) := by
  have hfree := cut_sepFree sep s
  intro c hc
  rw [pieces, List.mem_cons] at hc
  obtain rfl | hc := hc
  · exact hfree.1
  · exact hfree.2 c hc

theorem names_append_sep (s t : List α) :
    names sep dot (s ++ sep :: t) = names sep dot s ++ names sep dot t := by
  rw [names, pieces_append_sep, List.filter_append, names, names]

@[simp] theorem names_nil : names sep dot ([] : List α) = [] := by
  simp [names]

theorem names_sep_cons (s : List α) : names sep dot (sep :: s) = names sep dot s := by
  simpa using names_append_sep sep dot [] s

end

theorem names_dot (hne : dot ≠ sep) : names sep dot [dot] = [] := by
  rw [names, pieces_of_sepFree sep (by simpa using hne.symm)]
  simp

/-- An edit leads past the same names. -/
theorem Respelling.names_eq (hne : dot ≠ sep) {s t : List α} (h : Respelling sep dot s t) :
    names sep dot s = names sep dot t := by
  cases h with
  | sep front rest => rw [names_append_sep, names_append_sep, names_sep_cons]
  | dot front rest =>
    have hrest : names sep dot (dot :: sep :: rest) = names sep dot rest := by
      have happend := names_append_sep sep dot [dot] rest
      rwa [List.singleton_append, names_dot hne, List.nil_append] at happend
    rw [names_append_sep, names_append_sep, hrest]
  | trailingSep s hs => rw [names_append_sep, names_nil, List.append_nil]
  | trailingDot front =>
    rw [names_append_sep, names_append_sep, names_nil, names_dot hne]

namespace Spellings

/-- Spellings lead past the same names. -/
theorem names_eq (hne : dot ≠ sep) {s t : List α} (h : Spellings sep dot s t) :
    names sep dot s = names sep dot t := by
  induction h with
  | rel s t hedit => exact hedit.names_eq hne
  | refl s => rfl
  | symm s t _ ih => exact ih.symm
  | trans s t u _ _ ih ih' => exact ih.trans ih'

end Spellings

/-- A name is a spelling of the shortest one. -/
theorem spellings_shortest {ds cs : List (List α)} (hcs : cs ≠ []) :
    Spellings sep dot (flat sep (ds ++ cs))
      (shortest sep (ds ++ cs.filter fun c => c ≠ [] ∧ c ≠ [dot])) := by
  -- The pieces in `ds` have been looked at, and all of them lead somewhere.
  induction cs generalizing ds with
  | nil => exact absurd rfl hcs
  | cons c cs ih =>
    by_cases hc : c = [] ∨ c = [dot]
    · have hfilter : (c :: cs).filter (fun c => c ≠ [] ∧ c ≠ [dot]) =
          cs.filter fun c => c ≠ [] ∧ c ≠ [dot] := by
        apply List.filter_cons_of_neg
        obtain rfl | rfl := hc <;> simp
      rw [hfilter]
      cases cs with
      | nil =>
        rw [List.filter_nil, List.append_nil]
        obtain rfl | rfl := hc
        · exact spellings_flat_empty ds
        · refine .trans (.symm ?_) (spellings_flat_empty ds)
          have hedit : Respelling sep dot _ _ := .trailingDot (flat sep ds)
          simpa using Spellings.of_edit hedit
      | cons c' cs => exact (spellings_flat_skip ds hc c' cs).trans (ih (List.cons_ne_nil c' cs))
    · have hfilter : (c :: cs).filter (fun c => c ≠ [] ∧ c ≠ [dot]) =
          c :: cs.filter fun c => c ≠ [] ∧ c ≠ [dot] := by
        apply List.filter_cons_of_pos
        simpa [not_or] using hc
      rw [hfilter, List.append_cons ds c cs, List.append_cons ds c (cs.filter _)]
      cases cs with
      | nil =>
        rw [List.filter_nil, List.append_nil, shortest, if_neg (by simp)]
        exact .refl _
      | cons c' cs => exact ih (List.cons_ne_nil c' cs)

/-- **The spellings of a name** that starts with a separator are those that lead past the
same names. -/
theorem names_eq_iff (hne : dot ≠ sep) {s t : List α} (hs : s.head? = some sep)
    (ht : t.head? = some sep) : names sep dot s = names sep dot t ↔ Spellings sep dot s t := by
  have hshortest : ∀ u : List α, u.head? = some sep →
      Spellings sep dot u (shortest sep (names sep dot u)) := by
    intro u hu
    obtain ⟨rest, rfl⟩ := List.head?_eq_some_iff.1 hu
    have hspell : Spellings sep dot (flat sep ([] ++ pieces sep rest)) _ :=
      spellings_shortest (List.cons_ne_nil _ _)
    have hflat : flat sep (pieces sep rest) = sep :: rest := by
      rw [pieces, flat_cons, List.cons_append, cut_flat]
    rw [List.nil_append, List.nil_append, hflat] at hspell
    rw [names_sep_cons]
    exact hspell
  constructor
  · intro h
    have hs' := hshortest s hs
    rw [h] at hs'
    exact hs'.trans (hshortest t ht).symm
  · exact fun h => h.names_eq hne

end NeoProot.Segments
