import NeoProot.Lib.DeepFirst

/-!
# Mount tables

A mount table sends some names, as lists of components, to values.  A lookup of a
name finds the deepest mount point above it.  `resolve` is the lookup for tables
whose values are names themselves: the mount point is replaced by its value and
the rest of the name stays.

Nothing here depends on how a table is stored.  A concrete table is connected by
its partial function and the deepest prefix it finds.

## Main definitions

* `deepest M p` — the deepest mount point on `p`, with its value.
* `resolve M p` — the name that `p` stands for.
-/

namespace NeoProot.MountTable

variable {γ β : Type*}

/-- The deepest mount point on `p` and what is mounted there. -/
def deepest (M : List γ → Option β) (p : List γ) : Option (List γ × β) :=
  p.inits.reverse.findSome? fun cs => (M cs).map fun b => (cs, b)

/-- The name `p` with its deepest mount point replaced. -/
def resolve (M : List γ → Option (List γ)) (p : List γ) : Option (List γ) :=
  (deepest M p).map fun found => found.2 ++ p.drop found.1.length

variable {M N : List γ → Option β} {p cs : List γ} {b : β}

@[simp] theorem deepest_nil (M : List γ → Option β) :
    deepest M [] = (M []).map fun b => ([], b) := by
  cases h : M [] <;> simp [deepest, h]

private theorem deepest_snoc (M : List γ → Option β) (p : List γ) (a : γ) :
    deepest M (p ++ [a]) = ((M (p ++ [a])).map fun b => (p ++ [a], b)).or (deepest M p) := by
  simp only [deepest, List.inits_append, List.reverse_append]
  cases h : M (p ++ [a]) <;> simp [h]

/-- A lookup finds a mount point on the name with nothing mounted between. -/
theorem deepest_eq_some_iff :
    deepest M p = some (cs, b) ↔
      cs <+: p ∧ M cs = some b ∧ ∀ ds, ds <+: p → StrictPrefix cs ds → M ds = none := by
  induction p using List.reverseRecOn with
  | nil =>
    rw [deepest_nil, Option.map_eq_some_iff]
    constructor
    · intro h
      obtain ⟨b', hM, heq⟩ := h
      obtain ⟨rfl, rfl⟩ := Prod.mk.inj heq
      refine ⟨List.prefix_rfl, hM, fun ds hds hcs => ?_⟩
      exact absurd (List.prefix_nil.1 hds).symm hcs.2
    · intro h
      have hnil := List.prefix_nil.1 h.1
      subst hnil
      exact ⟨b, h.2.1, rfl⟩
  | append_singleton p a ih =>
    rw [deepest_snoc]
    have hpre : ∀ ds : List γ, ds <+: p ++ [a] ↔ ds = p ++ [a] ∨ ds <+: p := fun ds =>
      List.prefix_concat_iff
    have hself : StrictPrefix p (p ++ [a]) := ⟨List.prefix_append p [a], by simp⟩
    cases hM : M (p ++ [a]) with
    | none =>
      rw [Option.map_none, Option.none_or, ih]
      constructor
      · intro h
        refine ⟨h.1.trans hself.1, h.2.1, fun ds hds hcs => ?_⟩
        obtain heq | hds := (hpre ds).1 hds
        · rw [heq, hM]
        · exact h.2.2 ds hds hcs
      · intro h
        obtain heq | hcs := (hpre cs).1 h.1
        · rw [heq, hM] at h
          exact absurd h.2.1 (by simp)
        · exact ⟨hcs, h.2.1, fun ds hds => h.2.2 ds (hds.trans hself.1)⟩
    | some b' =>
      rw [Option.map_some, Option.some_or, Option.some.injEq, Prod.mk.injEq]
      constructor
      · intro h
        obtain ⟨rfl, rfl⟩ := h
        refine ⟨List.prefix_rfl, hM, fun ds hds hcs => ?_⟩
        have h1 := hds.length_le
        have h2 := hcs.length_lt
        omega
      · intro h
        obtain heq | hcs := (hpre cs).1 h.1
        · subst heq
          exact ⟨rfl, Option.some.inj (hM.symm.trans h.2.1)⟩
        · have hstrict : StrictPrefix cs (p ++ [a]) := by
            refine ⟨h.1, fun heq => ?_⟩
            have hlen := hcs.length_le
            rw [heq, List.length_append, List.length_singleton] at hlen
            omega
          rw [h.2.2 _ List.prefix_rfl hstrict] at hM
          exact absurd hM (by simp)

theorem deepest_eq_none_iff : deepest M p = none ↔ ∀ cs, cs <+: p → M cs = none := by
  constructor
  · intro h cs hcs
    simp only [deepest, List.findSome?_eq_none_iff, List.mem_reverse, List.mem_inits,
      Option.map_eq_none_iff] at h
    exact h cs hcs
  · intro h
    simp only [deepest, List.findSome?_eq_none_iff, List.mem_reverse, List.mem_inits,
      Option.map_eq_none_iff]
    exact h

/-- A lookup depends only on what is mounted on the name. -/
theorem deepest_congr (h : ∀ cs, cs <+: p → M cs = N cs) : deepest M p = deepest N p := by
  cases hN : deepest N p with
  | none =>
    rw [deepest_eq_none_iff] at hN ⊢
    exact fun cs hcs => (h cs hcs).trans (hN cs hcs)
  | some found =>
    obtain ⟨cs, b⟩ := found
    rw [deepest_eq_some_iff] at hN ⊢
    exact ⟨hN.1, (h cs hN.1).trans hN.2.1, fun ds hds hcs => (h ds hds).trans (hN.2.2 ds hds hcs)⟩

/-- With something mounted at the root every lookup succeeds. -/
theorem exists_deepest (h : M [] ≠ none) (p : List γ) : ∃ cs b, deepest M p = some (cs, b) := by
  cases hp : deepest M p with
  | none => exact absurd (deepest_eq_none_iff.1 hp [] (List.nil_prefix)) h
  | some found => exact ⟨found.1, found.2, rfl⟩

/-- The lookup in a table whose values are mapped is the lookup with its value
mapped. -/
theorem deepest_map {δ : Type*} (f : β → δ) (M : List γ → Option β) (p : List γ) :
    deepest (fun cs => (M cs).map f) p = (deepest M p).map fun found => (found.1, f found.2) := by
  cases hp : deepest M p with
  | none =>
    rw [deepest_eq_none_iff] at hp
    rw [Option.map_none, deepest_eq_none_iff]
    exact fun cs hcs => by rw [hp cs hcs, Option.map_none]
  | some found =>
    obtain ⟨cs, b⟩ := found
    rw [deepest_eq_some_iff] at hp
    rw [Option.map_some, deepest_eq_some_iff]
    exact ⟨hp.1, by rw [hp.2.1, Option.map_some],
      fun ds hds hcs => by rw [hp.2.2 ds hds hcs, Option.map_none]⟩

/-- What is mounted above or below a deeper mount point does not matter. -/
theorem deepest_or {N : List γ → Option β}
    (h : ∀ cs, cs <+: p → N cs ≠ none → ∃ ds, cs <+: ds ∧ ds <+: p ∧ M ds ≠ none) :
    deepest (fun cs => (M cs).or (N cs)) p = deepest M p := by
  cases hp : deepest M p with
  | none =>
    rw [deepest_eq_none_iff] at hp ⊢
    intro cs hcs
    rw [hp cs hcs, Option.none_or]
    by_contra hN
    obtain ⟨ds, -, hds, hM⟩ := h cs hcs hN
    exact hM (hp ds hds)
  | some found =>
    obtain ⟨cs, b⟩ := found
    rw [deepest_eq_some_iff] at hp ⊢
    refine ⟨hp.1, by rw [hp.2.1, Option.some_or], fun ds hds hlt => ?_⟩
    rw [hp.2.2 ds hds hlt, Option.none_or]
    by_contra hN
    obtain ⟨es, hde, hes, hM⟩ := h ds hds hN
    refine hM (hp.2.2 es hes ⟨hlt.1.trans hde, fun heq => ?_⟩)
    have hlen := hlt.length_lt
    have hle := hde.length_le
    rw [← heq] at hle
    omega

section Resolve

variable {M N : List γ → Option (List γ)} {n p v : List γ}

theorem resolve_congr (h : ∀ cs, cs <+: p → M cs = N cs) : resolve M p = resolve N p := by
  rw [resolve, deepest_congr h, resolve]

theorem resolve_or (h : ∀ cs, cs <+: p → N cs ≠ none → ∃ ds, cs <+: ds ∧ ds <+: p ∧ M ds ≠ none) :
    resolve (fun cs => (M cs).or (N cs)) p = resolve M p := by
  rw [resolve, deepest_or h, resolve]

theorem resolve_of_mounted (h : M n = some v) : resolve M n = some v := by
  have hdeep : deepest M n = some (n, v) := by
    rw [deepest_eq_some_iff]
    refine ⟨List.prefix_rfl, h, fun ds hds hlt => ?_⟩
    have h1 := hds.length_le
    have h2 := hlt.length_lt
    omega
  rw [resolve, hdeep, Option.map_some, List.drop_length, List.append_nil]

/-- Below a place a name is resolved by what is mounted there, and otherwise follows
the place. -/
theorem resolve_append (h : resolve M n = some v) (p : List γ) :
    resolve M (n ++ p) = resolve (fun cs => if cs = [] then some v else M (n ++ cs)) p := by
  obtain ⟨⟨ds, d⟩, hdeep, hv⟩ := Option.map_eq_some_iff.1 h
  rw [deepest_eq_some_iff] at hdeep
  obtain ⟨cs, b, hsub⟩ := exists_deepest (M := fun cs => if cs = [] then some v else M (n ++ cs))
    (by simp) p
  have hright : resolve (fun cs => if cs = [] then some v else M (n ++ cs)) p =
      some (b ++ p.drop cs.length) := by
    rw [resolve, hsub, Option.map_some]
  rw [hright]
  rw [deepest_eq_some_iff] at hsub
  obtain ⟨hcs, hb, hbelow⟩ := hsub
  by_cases hnil : cs = []
  · -- Nothing is mounted on the way from `n` to the name.
    subst hnil
    rw [if_pos rfl, Option.some.injEq] at hb
    have hlast : deepest M (n ++ p) = some (ds, d) := by
      rw [deepest_eq_some_iff]
      refine ⟨hdeep.1.trans (List.prefix_append n p), hdeep.2.1, fun es hes hlt => ?_⟩
      obtain hle | hle := List.prefix_or_prefix_of_prefix hes (List.prefix_append n p)
      · exact hdeep.2.2 es hle hlt
      · obtain ⟨x, rfl⟩ := hle
        by_cases hx : x = []
        · rw [hx, List.append_nil] at hlt ⊢
          exact hdeep.2.2 n List.prefix_rfl hlt
        · have hnone := hbelow x ((List.prefix_append_right_inj n).1 hes)
            ⟨List.nil_prefix, Ne.symm hx⟩
          rwa [if_neg hx] at hnone
    rw [resolve, hlast, Option.map_some, ← hb, ← hv, List.drop_append_of_le_length hdeep.1.length_le,
      List.length_nil, List.drop_zero, List.append_assoc]
  · rw [if_neg hnil] at hb
    have hlast : deepest M (n ++ p) = some (n ++ cs, b) := by
      rw [deepest_eq_some_iff]
      refine ⟨(List.prefix_append_right_inj n).2 hcs, hb, fun es hes hlt => ?_⟩
      obtain ⟨x, rfl⟩ : n <+: es := (List.prefix_append n cs).trans hlt.1
      have hlt' : StrictPrefix cs x :=
        ⟨(List.prefix_append_right_inj n).1 hlt.1, fun heq => hlt.2 (by rw [heq])⟩
      have hx : x ≠ [] := by
        intro hx
        have hlen := hlt'.length_lt
        rw [hx, List.length_nil] at hlen
        omega
      have hnone := hbelow x ((List.prefix_append_right_inj n).1 hes) hlt'
      rwa [if_neg hx] at hnone
    rw [resolve, hlast, Option.map_some, List.length_append, List.drop_append]
    simp

/-- Below a mount point the names are those of the tree mounted there. -/
theorem resolve_append_of_mounted (h : M n = some v) (p : List γ) :
    resolve M (n ++ p) = resolve (fun cs => M (n ++ cs)) p := by
  rw [resolve_append (resolve_of_mounted h)]
  refine resolve_congr fun cs _ => ?_
  by_cases hcs : cs = []
  · rw [if_pos hcs, hcs, List.append_nil, h]
  · rw [if_neg hcs]

end Resolve

end NeoProot.MountTable
