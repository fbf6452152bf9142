import NeoProot.Path.Binding

/-!
# Canonical paths

A canonical path is absolute, has no empty component and no trailing slash except
in the root itself.  It is `render` of its components, and on canonical paths the
character tests of the lookup and the rewriting of a prefix are statements about
component lists.

## Main definitions

* `IsCanonical` — the paths the tables hold.
* `render cs` — the canonical path with the components `cs`.
-/

namespace NeoProot
open Segments

variable {cs os rest : List CStr} {path : CStr}

/-- A path without empty components and without a trailing slash. -/
def IsCanonical (path : CStr) : Prop :=
  IsAbsolute path ∧ (∀ c ∈ comps path, c ≠ []) ∧ (path = ['/'] ∨ path.getLast? ≠ some '/')

instance (path : CStr) : Decidable (IsCanonical path) := inferInstanceAs (Decidable (_ ∧ _ ∧ _))

/-- A component that names an entry of a directory. -/
def IsName (c : CStr) : Prop := c ≠ [] ∧ '/' ∉ c

/-- The canonical path with the components `cs`. -/
def render (cs : List CStr) : CStr := if cs = [] then ['/'] else flat '/' cs

@[simp] theorem render_nil : render [] = ['/'] := rfl

theorem render_of_ne (h : cs ≠ []) : render cs = flat '/' cs := if_neg h

theorem render_absolute (cs : List CStr) : IsAbsolute (render cs) := by
  cases cs with
  | nil => rfl
  | cons c cs => simp [render, IsAbsolute]

theorem comps_names (h : IsCanonical path) : ∀ c ∈ comps path, IsName c :=
  fun c hc => ⟨h.2.1 c hc, segments_sepFree '/' path c hc⟩

/-- A canonical path is determined by its components. -/
theorem render_comps (h : IsCanonical path) : render (comps path) = path := by
  have hflat := flat_segments '/' h.1
  obtain hroot | hlast := h.2.2
  · subst hroot
    rfl
  · have hbody : body '/' path = path := body_of_getLast?_ne '/' hlast
    have hne : comps path ≠ [] := by
      intro hnil
      rw [comps] at hnil
      rw [hnil, flat_nil, hbody] at hflat
      rw [← hflat] at h
      simp [IsCanonical, IsAbsolute] at h
    rw [render_of_ne hne]
    exact hflat.trans hbody

theorem comps_render (h : ∀ c ∈ cs, IsName c) : comps (render cs) = cs := by
  by_cases hnil : cs = []
  · subst hnil
    rfl
  · rw [render_of_ne hnil]
    refine segments_flat '/' (fun c hc => (h c hc).2) fun hlast => ?_
    exact (h [] (List.mem_of_getLast? hlast)).1 rfl

theorem flat_getLast? (h : ∀ c ∈ cs, IsName c) : (flat '/' cs).getLast? ≠ some '/' := by
  obtain rfl | ⟨ds, d, rfl⟩ := List.eq_nil_or_concat cs
  · simp
  · have hd := h d (by simp)
    obtain rfl | ⟨e, a, rfl⟩ := List.eq_nil_or_concat d
    · exact absurd rfl hd.1
    · have ha : a ≠ '/' := fun h => hd.2 (by simp [h])
      have hend : flat '/' (ds.concat (e.concat a)) = (flat '/' ds ++ '/' :: e) ++ [a] := by simp
      rw [hend, List.getLast?_concat]
      simpa using ha

theorem render_canonical (h : ∀ c ∈ cs, IsName c) : IsCanonical (render cs) := by
  refine ⟨render_absolute cs, ?_, ?_⟩
  · rw [comps_render h]
    exact fun c hc => (h c hc).1
  · by_cases hnil : cs = []
    · exact .inl (by simp [hnil])
    · rw [render_of_ne hnil]
      exact .inr (flat_getLast? h)

theorem canonical_ext {p q : CStr} (hp : IsCanonical p) (hq : IsCanonical q)
    (h : comps p = comps q) : p = q := by
  rw [← render_comps hp, ← render_comps hq, h]

theorem comps_eq_nil_iff (h : IsCanonical path) : comps path = [] ↔ path = ['/'] := by
  constructor
  · intro hnil
    rw [← render_comps h, hnil, render_nil]
  · intro hroot
    subst hroot
    rfl

theorem flat_length_pos (h : ∀ c ∈ cs, IsName c) (hne : cs ≠ []) : 1 < (flat '/' cs).length := by
  cases cs with
  | nil => exact absurd rfl hne
  | cons c cs =>
    have hc : 0 < c.length := List.length_pos_iff.2 (h c (by simp)).1
    simp only [flat_cons, List.length_append, List.length_cons]
    omega

theorem length_render_eq_one_iff (h : ∀ c ∈ cs, IsName c) : (render cs).length = 1 ↔ cs = [] := by
  constructor
  · intro hlen
    by_contra hne
    have hpos := flat_length_pos h hne
    rw [render_of_ne hne] at hlen
    omega
  · intro hnil
    simp [hnil]

/-- Longer component lists have longer canonical paths. -/
theorem render_length_lt {ds : List CStr} (hds : ∀ c ∈ ds, IsName c) (h : StrictPrefix cs ds) :
    (render cs).length < (render ds).length := by
  obtain ⟨⟨es, hes⟩, hne⟩ := h
  subst hes
  have hesne : es ≠ [] := fun hnil => hne (by simp [hnil])
  have hes : 1 < (flat '/' es).length :=
    flat_length_pos (fun c hc => hds c (by simp [hc])) hesne
  rw [render_of_ne (by simp [hesne] : cs ++ es ≠ []), flat_append, List.length_append]
  by_cases hnil : cs = []
  · simp only [hnil, render_nil, flat_nil, List.length_nil, List.length_singleton]
    omega
  · rw [render_of_ne hnil]
    omega

/-- An absolute path is its components written out, with an empty one for a slash at
the end. -/
theorem exists_flat_eq (hpath : IsAbsolute path) :
    ∃ ds, SepFree '/' ds ∧ path = flat '/' ds ∧ (ds = comps path ∨ ds = comps path ++ [[]]) := by
  have hfree := segments_sepFree '/' path
  obtain h | h := eq_body '/' path
  · exact ⟨comps path, hfree, h.trans (flat_segments '/' hpath).symm, .inl rfl⟩
  · refine ⟨comps path ++ [[]], fun c hc => ?_, ?_, .inr rfl⟩
    · obtain hc | hc := List.mem_append.1 hc
      · exact hfree c hc
      · simp [List.mem_singleton.1 hc]
    · rw [flat_append, comps, flat_segments '/' hpath]
      exact h

/-- **The character test of the lookup cache is the prefix order on components.** -/
theorem matchesPrefix_iff (hpath : IsAbsolute path) {b : Binding} (hb : IsCanonical b.guest) :
    Bindings.matchesPrefix path b = true ↔ comps b.guest <+: comps path := by
  have hbn := comps_names hb
  obtain ⟨ds, hsep', hflat, hds⟩ := exists_flat_eq hpath
  -- No component of the binding is empty, so one for a slash at the end is not met.
  have hpre : comps b.guest <+: comps path ↔ comps b.guest <+: ds := by
    obtain rfl | rfl := hds
    · exact Iff.rfl
    · refine ⟨fun h => h.trans (List.prefix_append _ _), fun h => ?_⟩
      obtain heq | h := List.prefix_concat_iff.1 h
      · exact absurd rfl (hbn [] (by simp [heq])).1
      · exact h
  rw [hpre]
  obtain ⟨s, hs⟩ := List.head?_eq_some_iff.1 hpath
  simp only [Bindings.matchesPrefix]
  rw [← render_comps hb]
  generalize comps b.guest = bs at hbn ⊢
  rw [comps_render hbn]
  by_cases hbs : bs = []
  · subst hbs
    simp [hs]
  · have hblen := flat_length_pos hbn hbs
    have hsep : SepFree '/' bs := fun c hc => (hbn c hc).2
    rw [render_of_ne hbs, hflat]
    simp only [Bool.and_eq_true, decide_eq_true_eq, Bool.not_eq_true', Bool.and_eq_false_imp,
      decide_eq_false_iff_not, not_not]
    constructor
    · intro h
      obtain ⟨⟨⟨hle, -⟩, hnext⟩, htake⟩ := h
      have hsplit : flat '/' ds = flat '/' bs ++ (flat '/' ds).drop (flat '/' bs).length := by
        conv_lhs => rw [← List.take_append_drop (flat '/' bs).length (flat '/' ds), htake]
      have hrest : (flat '/' ds).drop (flat '/' bs).length = [] ∨
          ((flat '/' ds).drop (flat '/' bs).length).head? = some '/' := by
        rw [List.head?_drop]
        by_cases hlt : (flat '/' bs).length < (flat '/' ds).length
        · exact .inr (hnext ⟨hblen, hlt⟩)
        · exact .inl (List.drop_eq_nil_of_le (by omega))
      obtain ⟨es, hes, -⟩ := (flat_append_iff '/' hsep hsep' hrest).1 hsplit
      exact ⟨es, hes.symm⟩
    · intro h
      obtain ⟨es, rfl⟩ := h
      rw [flat_append]
      obtain ⟨b, bs, rfl⟩ := List.exists_cons_of_ne_nil hbs
      refine ⟨⟨⟨by simp, by simp⟩, fun hlt => ?_⟩, List.take_left⟩
      rw [List.getElem?_append_right (by omega), Nat.sub_self]
      cases es with
      | nil => simp at hlt
      | cons e es => simp

/-- Cutting leading components off a canonical path. -/
theorem cut_render (hrest : ∀ c ∈ rest, IsName c) (hne : os ≠ []) :
    (if (render (os ++ rest)).length = (render os).length then ['/']
      else (render (os ++ rest)).drop (render os).length) = render rest := by
  rw [render_of_ne hne, render_of_ne (by simp [hne] : os ++ rest ≠ []), flat_append]
  by_cases hr : rest = []
  · simp [hr]
  · have hlen := flat_length_pos hrest hr
    rw [if_neg (by rw [List.length_append]; omega), List.drop_left, render_of_ne hr]

/-- Two canonical paths below the root, one written behind the other. -/
theorem render_append (hos : os ≠ []) (hrest : rest ≠ []) :
    render (os ++ rest) = render os ++ render rest := by
  rw [render_of_ne hos, render_of_ne hrest, render_of_ne (by simp [hos] : os ++ rest ≠ []),
    flat_append]

/-- A canonical path starts with another, up to a slash or to its end, if that is
above it. -/
theorem render_isPrefix_iff (hos : ∀ c ∈ os, IsName c) (hcs : ∀ c ∈ cs, IsName c) (hne : os ≠ []) :
    render os <+: render cs ∧ ((render cs)[(render os).length]? = none ∨
      (render cs)[(render os).length]? = some '/') ↔ os <+: cs := by
  have hsep : SepFree '/' os := fun c hc => (hos c hc).2
  have hsep' : SepFree '/' cs := fun c hc => (hcs c hc).2
  have hlen := flat_length_pos hos hne
  by_cases hnil : cs = []
  · subst hnil
    have hnot : ¬ render os <+: render [] := by
      intro h
      have hle := h.length_le
      rw [render_of_ne hne, render_nil, List.length_singleton] at hle
      omega
    exact iff_of_false (fun h => hnot h.1) fun h => hne (List.prefix_nil.1 h)
  · rw [render_of_ne hne, render_of_ne hnil]
    constructor
    · intro h
      obtain ⟨⟨t, ht⟩, hend⟩ := h
      rw [← ht, List.getElem?_append_right le_rfl, Nat.sub_self] at hend
      have ht' : t = [] ∨ t.head? = some '/' := by
        cases t with
        | nil => exact .inl rfl
        | cons a t => exact .inr (by simpa using hend)
      obtain ⟨es, hes, -⟩ := (flat_append_iff '/' hsep hsep' ht').1 ht.symm
      exact ⟨es, hes.symm⟩
    · intro h
      obtain ⟨es, rfl⟩ := h
      rw [flat_append]
      refine ⟨List.prefix_append _ _, ?_⟩
      rw [List.getElem?_append_right le_rfl, Nat.sub_self]
      cases es with
      | nil => exact .inl rfl
      | cons e es => exact .inr rfl

/-- Rewriting the prefix of a canonical path replaces its leading components, if
the result fits a path buffer. -/
theorem substitutePathPrefix_eq {ns : List CStr} (hos : ∀ c ∈ os, IsName c)
    (hns : ∀ c ∈ ns, IsName c) (hrest : ∀ c ∈ rest, IsName c) (hne : os ≠ ns) :
    substitutePathPrefix (render (os ++ rest)) (render os).length (render ns) =
      if ns ≠ [] ∧ pathMax ≤ (render (ns ++ rest)).length then
        (render (os ++ rest), .error .enametoolong)
      else (render (ns ++ rest), .ok (render (ns ++ rest)).length) := by
  simp only [substitutePathPrefix, length_render_eq_one_iff hns, length_render_eq_one_iff hos]
  by_cases hnsnil : ns = []
  · subst hnsnil
    have hnot : ¬ (([] : List CStr) ≠ [] ∧ pathMax ≤ (render ([] ++ rest)).length) :=
      fun h => h.1 rfl
    rw [if_pos rfl, if_neg hnot, render_of_ne hne,
      render_of_ne (by simp [hne] : os ++ rest ≠ []), flat_append]
    by_cases hr : rest = []
    · simp [hr]
    · have hlen := flat_length_pos hrest hr
      have hsub : ¬ (flat '/' os ++ flat '/' rest).length - (flat '/' os).length = 0 := by
        rw [List.length_append]
        omega
      simp only [if_neg hsub, List.drop_left, List.nil_append, render_of_ne hr]
  · rw [if_neg hnsnil]
    simp only [ne_eq, hnsnil, not_false_eq_true, true_and]
    by_cases hosnil : os = []
    · subst hosnil
      have hcase : (if (render ([] ++ rest)).length = 1 then render ns
          else render ns ++ render ([] ++ rest)) = render (ns ++ rest) := by
        rw [List.nil_append]
        by_cases hr : rest = []
        · simp [hr]
        · rw [if_neg (fun h => hr ((length_render_eq_one_iff hrest).1 h)), render_of_ne hnsnil,
            render_of_ne hr, render_of_ne (by simp [hr] : ns ++ rest ≠ []), flat_append]
      rw [if_pos rfl, hcase]
    · have hdrop : render ns ++ (render (os ++ rest)).drop (render os).length =
          render (ns ++ rest) := by
        rw [render_of_ne hnsnil, render_of_ne hosnil, render_of_ne (by simp [hosnil] : os ++ rest ≠ []),
          render_of_ne (by simp [hnsnil] : ns ++ rest ≠ []), flat_append, flat_append, List.drop_left]
      rw [if_neg hosnil, hdrop]

end NeoProot
