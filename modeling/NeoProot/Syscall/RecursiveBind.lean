import NeoProot.Syscall.Unmount

/-!
# Recursive binds

A bind with `MS_REC` takes the bindings below its source along.  The source is known by
its host path, so what is below it is looked for below the guest name of that path.

## Main definitions

* `nestedSource` — the guest name of the source.
* `emulateMount_recursive` — the view below the target, the flags of the copies, and the
  view elsewhere.
-/

namespace NeoProot
open MountTable Segments

variable {cs ds : List CStr} {p : CStr × Binding}

/-- Where `snapshot_recursive_bindings` looks for bindings below the source. -/
def nestedSource (tracee : Tracee) (getTracee : ℤ → Option Tracee) (sourceHost : CStr) :
    Option CStr :=
  match detranslatePath tracee getTracee (sourceHost.take (pathMax - 1)) none with
  | .error _ => none
  | .ok (_, sourceGuest) => some (chopFinality sourceGuest)

/-- What a copy has from the binding it is a copy of. -/
structure Binding.SameMount (a b : Binding) : Prop where
  host : a.host = b.host
  readonly : a.readonly = b.readonly
  sourceReadonly : a.sourceReadonly = b.sourceReadonly
  mountFlags : a.mountFlags = b.mountFlags
  sourceMountFlags : a.sourceMountFlags = b.sourceMountFlags
  mountKind : a.mountKind = b.mountKind

/-- The path of `ds` below `cs` is one that `join_paths` writes. -/
def Joins (cs ds : List CStr) : Prop := (render cs).length + (flat '/' ds).length + 1 < pathMax

instance (cs ds : List CStr) : Decidable (Joins cs ds) := inferInstanceAs (Decidable (_ < _))

/-! ### Paths -/

/-- `join_paths` puts a path of components behind another. -/
theorem joinPaths_render_flat (hcs : ∀ c ∈ cs, IsName c) (hne : ds ≠ []) :
    joinPaths (render cs) (flat '/' ds) =
      if Joins cs ds then .ok (render (cs ++ ds)) else .error .enametoolong := by
  have hrender : render (cs ++ ds) = flat '/' cs ++ flat '/' ds := by
    rw [render_of_ne (by simp [hne]), flat_append]
  obtain ⟨d, ds', rfl⟩ := List.exists_cons_of_ne_nil hne
  have hhead : (flat '/' (d :: ds')).head? = some '/' := by simp
  have hnil : flat '/' (d :: ds') ≠ [] := by simp
  have hrne : render cs ≠ [] := by
    intro h
    have habs := render_absolute cs
    simp [IsAbsolute, h] at habs
  have hjoins : Joins cs (d :: ds') ↔
      (render cs).length + (flat '/' (d :: ds')).length + 1 < pathMax := Iff.rfl
  rw [joinPaths, appendPath_nil_render]
  by_cases hlong : pathMax ≤ (render cs).length + 1
  · rw [if_pos hlong, if_neg (by rw [hjoins]; omega)]
  · rw [if_neg hlong]
    simp only [appendPath, hnil, if_false, hrne, hhead, ne_eq, not_true_eq_false, and_false,
      not_false_eq_true, true_and, Nat.add_zero, and_true]
    by_cases hfits : Joins cs (d :: ds')
    · rw [if_pos hfits, if_neg (by rw [hjoins] at hfits; omega), hrender]
      by_cases hroot : cs = []
      · subst hroot
        simp
      · have hlast : (render cs).getLast? ≠ some '/' := by
          rw [render_of_ne hroot]
          exact flat_getLast? hcs
        rw [if_neg hlast, render_of_ne hroot]
    · rw [if_neg hfits, if_pos (by rw [hjoins] at hfits; omega)]

theorem comparePaths_eq_path1IsPrefix_iff {p q : CStr} (hp : IsAbsolute p) (hq : IsAbsolute q) :
    comparePaths p q = .path1IsPrefix ↔ StrictPrefix (comps p) (comps q) := by
  rw [comparePaths, comparePaths2_eq hp hq, compareComps, StrictPrefix]
  by_cases heq : comps p = comps q
  · simp [heq]
  · by_cases hpre : comps p <+: comps q
    · simp [heq, hpre]
    · by_cases hpost : comps q <+: comps p <;> simp [heq, hpre, hpost]

/-- What stands behind the path of the source in the path of a binding below it. -/
theorem drop_source {source guest : CStr} (hsource : IsCanonical source)
    (hguest : IsCanonical guest) (hds : comps guest = comps source ++ ds) (hne : ds ≠ []) :
    (if source.length = 1 then guest else guest.drop source.length) = flat '/' ds := by
  have hg : guest = flat '/' (comps source ++ ds) := by
    rw [← hds, ← render_of_ne (by simp [hds, hne]), render_comps hguest]
  by_cases hone : source.length = 1
  · have hnil : comps source = [] := by
      rw [← length_render_eq_one_iff (comps_names hsource), render_comps hsource]
      exact hone
    rw [if_pos hone, hg, hnil, List.nil_append]
  · have hsne : comps source ≠ [] := by
      intro hnil
      refine hone ?_
      rw [← render_comps hsource, hnil]
      rfl
    have hsrc : flat '/' (comps source) = source := by
      rw [← render_of_ne hsne, render_comps hsource]
    rw [if_neg hone, hg, flat_append, hsrc, List.drop_left]

/-! ### The copies -/

/-- The entry of the snapshot for a binding below the source. -/
def nestedEntry (source : CStr) (b : Binding) : RecursiveBinding where
  hostPath := b.host
  guestSuffix := if source.length = 1 then b.guest else b.guest.drop source.length
  mountKind := b.mountKind
  readonly := b.readonly
  sourceReadonly := b.sourceReadonly
  mountFlags := b.mountFlags
  sourceMountFlags := b.sourceMountFlags

theorem snapshotRecursiveBindings_eq {tracee : Tracee} {getTracee : ℤ → Option Tracee}
    {sourceHost source : CStr} (h : nestedSource tracee getTracee sourceHost = some source) :
    snapshotRecursiveBindings tracee getTracee sourceHost =
      (tracee.fs.bindings.guest.filter fun b =>
        decide (comparePaths source b.guest = .path1IsPrefix)).map (nestedEntry source) := by
  rw [nestedSource] at h
  rw [snapshotRecursiveBindings]
  cases hdetr : detranslatePath tracee getTracee (sourceHost.take (pathMax - 1)) none with
  | error e => simp [hdetr] at h
  | ok res =>
    simp only [hdetr, Option.some.injEq] at h
    subst h
    rfl

/-- A mount that takes along what is bound below `source`. -/
structure MountRequest.TakesAlong (r : MountRequest) (t : Bindings) (source : CStr) : Prop where
  canonical : IsCanonical source
  nested : r.nested = (t.guest.filter fun b =>
    decide (comparePaths source b.guest = .path1IsPrefix)).map (nestedEntry source)

section Copies

variable {t : Bindings} {r : MountRequest} {source : CStr} {b : Binding} {ds : List CStr}

theorem joinPaths_nestedEntry (hsource : IsCanonical source) (hr : IsCanonical r.guest)
    (hb : IsCanonical b.guest) (hds : comps b.guest = comps source ++ ds) (hne : ds ≠ []) :
    joinPaths r.guest (nestedEntry source b).guestSuffix =
      if Joins (comps r.guest) ds then .ok (render (comps r.guest ++ ds))
      else .error .enametoolong := by
  have hsuffix : (nestedEntry source b).guestSuffix = flat '/' ds := drop_source hsource hb hds hne
  rw [hsuffix, ← joinPaths_render_flat (comps_names hr) hne, render_comps hr]

theorem comps_below (hds : comps b.guest = comps source ++ ds) (hb : IsCanonical b.guest)
    (hr : IsCanonical r.guest) : comps (render (comps r.guest ++ ds)) = comps r.guest ++ ds := by
  apply comps_render
  intro c hc
  obtain hc | hc := List.mem_append.1 hc
  · exact comps_names hr c hc
  · exact comps_names hb c (by rw [hds]; simp [hc])

/-- The bindings that a recursive mount takes along are strictly below its source. -/
theorem below_of_mem_nested (h : t.WellFormed) (ht : r.TakesAlong t source)
    (hb : b ∈ t.guest.filter fun b =>
      decide (comparePaths source b.guest = .path1IsPrefix)) :
    b ∈ t.guest ∧ ∃ ds, ds ≠ [] ∧ comps b.guest = comps source ++ ds := by
  rw [List.mem_filter, decide_eq_true_eq] at hb
  obtain ⟨hb, hbelow⟩ := hb
  rw [comparePaths_eq_path1IsPrefix_iff ht.canonical.1 (h.canonical .guest b hb).1.2.1] at hbelow
  obtain ⟨⟨ds, hds⟩, hne⟩ := hbelow
  exact ⟨hb, ds, fun hnil => hne (by rw [← hds, hnil, List.append_nil]), hds.symm⟩

/-- The copies are those of the bindings strictly below the source whose new path can be
written. -/
theorem mem_copies_iff (h : t.WellFormed) (hr : IsCanonical r.guest) (ht : r.TakesAlong t source) :
    p ∈ r.copies ↔ ∃ b ∈ t.guest, ∃ ds, ds ≠ [] ∧ comps b.guest = comps source ++ ds ∧
      Joins (comps r.guest) ds ∧
      p = (render (comps r.guest ++ ds), (nestedEntry source b).binding) := by
  rw [MountRequest.copies, List.mem_filterMap, ht.nested]
  constructor
  · intro hp
    obtain ⟨n, hn, hp⟩ := hp
    obtain ⟨b, hb, rfl⟩ := List.mem_map.1 hn
    obtain ⟨hb, ds, hdsne, hds⟩ := below_of_mem_nested h ht hb
    rw [joinPaths_nestedEntry ht.canonical hr (h.canonical .guest b hb).1.2 hds hdsne] at hp
    by_cases hj : Joins (comps r.guest) ds
    · rw [if_pos hj] at hp
      exact ⟨b, hb, ds, hdsne, hds, hj, (Option.some.inj hp).symm⟩
    · rw [if_neg hj] at hp
      simp at hp
  · intro hp
    obtain ⟨b, hb, ds, hne, hds, hj, rfl⟩ := hp
    have hbc := (h.canonical .guest b hb).1.2
    refine ⟨nestedEntry source b, List.mem_map_of_mem ?_, ?_⟩
    · rw [List.mem_filter, decide_eq_true_eq,
        comparePaths_eq_path1IsPrefix_iff ht.canonical.1 hbc.1]
      refine ⟨hb, ⟨ds, hds.symm⟩, fun heq => hne ?_⟩
      rw [← heq] at hds
      simpa using hds
    · rw [joinPaths_nestedEntry ht.canonical hr hbc hds hne, if_pos hj]

theorem comps_mem_copies (h : t.WellFormed) (hr : IsCanonical r.guest) (ht : r.TakesAlong t source)
    (hp : p ∈ r.copies) : ∃ ds, ds ≠ [] ∧ comps p.1 = comps r.guest ++ ds := by
  obtain ⟨b, hb, ds, hne, hds, -, rfl⟩ := (mem_copies_iff h hr ht).1 hp
  exact ⟨ds, hne, comps_below hds (h.canonical .guest b hb).1.2 hr⟩

/-- No two copies land on the same place. -/
theorem comps_place (h : t.WellFormed) (hr : IsCanonical r.guest) (ht : r.TakesAlong t source) :
    ∀ b ∈ t.guest.filter (fun b =>
      decide (comparePaths source b.guest = .path1IsPrefix)), ∀ cs,
      ((match joinPaths r.guest (nestedEntry source b).guestSuffix with
        | .error _ => none
        | .ok guestPath => some (guestPath, (nestedEntry source b).binding)).map
          fun p : CStr × Binding => comps p.1) = some cs →
        ∃ ds, comps b.guest = comps source ++ ds ∧ cs = comps r.guest ++ ds := by
  intro b hb cs hcs
  obtain ⟨hb, ds, hdsne, hds⟩ := below_of_mem_nested h ht hb
  have hbc := (h.canonical .guest b hb).1.2
  rw [joinPaths_nestedEntry ht.canonical hr hbc hds hdsne] at hcs
  by_cases hj : Joins (comps r.guest) ds
  · rw [if_pos hj, Option.map_some, Option.some.injEq, comps_below hds hbc hr] at hcs
    exact ⟨ds, hds, hcs.symm⟩
  · rw [if_neg hj] at hcs
    simp at hcs

theorem places_nodup (h : t.WellFormed) (hr : IsCanonical r.guest) (ht : r.TakesAlong t source) :
    r.places.Nodup := by
  have hplace := comps_place h hr ht
  rw [MountRequest.places, MountRequest.copies, ht.nested, List.map_filterMap, List.filterMap_map]
  have hnodup := (List.Nodup.of_map _ h.unique).sublist
    (List.filter_sublist (p := fun b => decide (comparePaths source b.guest = .path1IsPrefix)))
  have hsub := List.filter_sublist
    (p := fun b : Binding => decide (comparePaths source b.guest = .path1IsPrefix)) (l := t.guest)
  generalize t.guest.filter (fun b => decide (comparePaths source b.guest = .path1IsPrefix)) = l
    at hplace hnodup hsub ⊢
  rw [List.nodup_iff_pairwise_ne] at hnodup ⊢
  rw [List.pairwise_filterMap]
  refine hnodup.imp_of_mem fun {b b'} hb hb' hne cs hcs cs' hcs' heq => ?_
  obtain ⟨ds, hds, rfl⟩ := hplace b hb cs hcs
  obtain ⟨ds', hds', rfl⟩ := hplace b' hb' cs' hcs'
  rw [List.append_cancel_left_eq] at heq
  have hcomps : comps b.guest = comps b'.guest := by rw [hds, hds', heq]
  have hbm := hsub.subset hb
  have hbm' := hsub.subset hb'
  exact hne (h.eq_of_guest hbm hbm' (canonical_ext (h.canonical .guest b hbm).1.2
    (h.canonical .guest b' hbm').1.2 hcomps))

/-! ### The view -/

theorem copyBinding_sameMount (h : t.WellFormed) {guest : CStr}
    (hp : IsCanonical b.host ∧ IsCanonical guest) : (t.copyBinding b guest).2.SameMount b := by
  rw [h.copyBinding_snd hp]
  exact ⟨rfl, rfl, rfl, rfl, rfl, rfl⟩

/-- Where a copy lands on a place of its own, it is found there. -/
theorem mounts_copies_of_mem (h : t.WellFormed) {ps : List (CStr × Binding)}
    (hps : ∀ p ∈ ps, IsCanonical p.1 ∧ IsCanonical p.2.host)
    (hnodup : (ps.map fun p => comps p.1).Nodup) (hp : p ∈ ps) :
    ∃ x, (ps.foldl (fun t p => (t.copyBinding p.2 p.1).1) t).mounts (comps p.1) = some x ∧
      x.SameMount p.2 := by
  induction ps generalizing t with
  | nil => simp at hp
  | cons q ps ih =>
    have hq := hps q (by simp)
    have hwf : (t.copyBinding q.2 q.1).1.WellFormed := h.copyBinding ⟨hq.2, hq.1⟩
    have hps' : ∀ p ∈ ps, IsCanonical p.1 ∧ IsCanonical p.2.host := fun p hp => hps p (by simp [hp])
    rw [List.map_cons, List.nodup_cons] at hnodup
    rw [List.foldl_cons]
    obtain rfl | hp := List.mem_cons.1 hp
    · refine ⟨(t.copyBinding p.2 p.1).2, ?_, copyBinding_sameMount h ⟨hq.2, hq.1⟩⟩
      rw [hwf.mounts_copies_of_not_mem hps' hnodup.1,
        (h.mounts_copyBinding ⟨hq.2, hq.1⟩).2.2.2, if_pos rfl]
    · exact ih hwf hps' hnodup.2 hp

/-- A binding below the source is found below the target as well. -/
theorem mounts_mount_copy (h : t.WellFormed) (hr : r.Canonical) (ht : r.TakesAlong t source)
    (hb : b ∈ t.guest) (hds : comps b.guest = comps source ++ ds) (hne : ds ≠ [])
    (hj : Joins (comps r.guest) ds) :
    ∃ x, (t.mount r).mounts (comps r.guest ++ ds) = some x ∧ x.SameMount b := by
  have hbc := (h.canonical .guest b hb).1.2
  have hmem := (mem_copies_iff h hr.guest ht).2 ⟨b, hb, ds, hne, hds, hj, rfl⟩
  obtain ⟨x, hx, hsame⟩ := mounts_copies_of_mem (h.mountOver hr) hr.copies
    (places_nodup h hr.guest ht) hmem
  rw [Bindings.mount_eq]
  rw [comps_below hds hbc hr.guest] at hx
  exact ⟨x, hx, hsame.host, hsame.readonly, hsame.sourceReadonly, hsame.mountFlags,
    hsame.sourceMountFlags, hsame.mountKind⟩

/-- **The mount table behind a recursive bind.** -/
theorem hosts_mount_recursive (h : t.WellFormed) (hr : r.Canonical) (ht : r.TakesAlong t source)
    (ds : List CStr) :
    (t.mount r).hosts (comps r.guest ++ ds) =
      if ds = [] then some (comps r.host)
      else if Joins (comps r.guest) ds then
        (t.hosts (comps source ++ ds)).or (t.hosts (comps r.guest ++ ds))
      else t.hosts (comps r.guest ++ ds) := by
  have hoff : comps r.guest ++ ds ∉ r.places → (t.mount r).hosts (comps r.guest ++ ds) =
      if ds = [] then some (comps r.host) else t.hosts (comps r.guest ++ ds) := by
    intro hnot
    rw [Bindings.hosts, h.mounts_mount_of_not_mem hr hnot, h.mounts_mountOver hr]
    by_cases hnil : ds = []
    · rw [if_pos (by simp [hnil]), if_pos hnil]
      rfl
    · rw [if_neg (by simpa using hnil), if_neg hnil]
      rfl
  by_cases hnil : ds = []
  · rw [if_pos hnil]
    subst hnil
    rw [hoff, if_pos rfl]
    intro hmem
    obtain ⟨p, hp, hpcs⟩ := List.mem_map.1 hmem
    obtain ⟨es, hes, heq⟩ := comps_mem_copies h hr.guest ht hp
    rw [heq] at hpcs
    exact hes (by simpa using hpcs)
  · rw [if_neg hnil]
    by_cases hj : Joins (comps r.guest) ds
    · rw [if_pos hj]
      cases hold : t.mounts (comps source ++ ds) with
      | some b =>
        obtain ⟨hb, hds⟩ := h.mounts_eq_some_iff.1 hold
        obtain ⟨x, hx, hsame⟩ := mounts_mount_copy h hr ht hb hds hnil hj
        rw [Bindings.hosts, hx, Bindings.hosts, hold, Option.map_some, Option.map_some,
          Option.some_or, hsame.host]
      | none =>
        rw [hoff, if_neg hnil]
        · rw [Bindings.hosts, Bindings.hosts, hold, Option.map_none, Option.none_or]
        · intro hmem
          obtain ⟨p, hp, hpcs⟩ := List.mem_map.1 hmem
          obtain ⟨b, hb, es, -, hes, -, rfl⟩ := (mem_copies_iff h hr.guest ht).1 hp
          rw [comps_below hes (h.canonical .guest b hb).1.2 hr.guest,
            List.append_cancel_left_eq] at hpcs
          rw [hpcs] at hes
          exact Bindings.WellFormed.mounts_eq_none_iff.1 hold b hb hes
    · rw [if_neg hj, hoff, if_neg hnil]
      intro hmem
      obtain ⟨p, hp, hpcs⟩ := List.mem_map.1 hmem
      obtain ⟨b, hb, es, -, hes, hj', rfl⟩ := (mem_copies_iff h hr.guest ht).1 hp
      rw [comps_below hes (h.canonical .guest b hb).1.2 hr.guest,
        List.append_cancel_left_eq] at hpcs
      exact hj (hpcs ▸ hj')

/-- Nothing off the target changes. -/
theorem mounts_mount_off (h : t.WellFormed) (hr : r.Canonical) (ht : r.TakesAlong t source)
    (hcs : ¬ comps r.guest <+: cs) : (t.mount r).mounts cs = t.mounts cs := by
  have hnot : cs ∉ r.places := by
    intro hmem
    obtain ⟨p, hp, rfl⟩ := List.mem_map.1 hmem
    obtain ⟨ds, -, hds⟩ := comps_mem_copies h hr.guest ht hp
    exact hcs (hds ▸ List.prefix_append _ _)
  rw [h.mounts_mount_of_not_mem hr hnot, h.mounts_mountOver hr, if_neg]
  exact fun heq => hcs (heq ▸ List.prefix_rfl)

theorem canonical_of_takesAlong (h : t.WellFormed) (hhost : IsCanonical r.host)
    (hguest : IsCanonical r.guest) (ht : r.TakesAlong t source) : r.Canonical := by
  refine ⟨hhost, hguest, fun p hp => ?_⟩
  obtain ⟨b, hb, ds, -, hds, -, rfl⟩ := (mem_copies_iff h hguest ht).1 hp
  have hbc := (h.canonical .guest b hb).1
  refine ⟨render_canonical fun c hc => ?_, hbc.1⟩
  obtain hc | hc := List.mem_append.1 hc
  · exact comps_names hguest c hc
  · exact comps_names hbc.2 c (hds ▸ List.mem_append_right _ hc)

end Copies

/-- What lies on a path that leaves room for two more characters is joined. -/
theorem joins_of_length {s : List CStr} {path : CStr} (hpath : IsCanonical path)
    (hlen : path.length + 2 < pathMax) (hcs : comps path = cs ++ s) (hds : ds <+: s) :
    Joins cs ds := by
  obtain ⟨es, rfl⟩ := hds
  rw [Joins]
  by_cases hnil : comps path = []
  · obtain ⟨rfl, hes⟩ := List.append_eq_nil_iff.1 (hcs.symm.trans hnil)
    obtain ⟨rfl, -⟩ := List.append_eq_nil_iff.1 hes
    simp only [render_nil, List.length_singleton, flat_nil, List.length_nil]
    decide
  · have hrender : path.length = (flat '/' cs).length + (flat '/' ds).length +
        (flat '/' es).length := by
      rw [← render_comps hpath, render_of_ne hnil, hcs]
      simp only [flat_append, List.length_append]
      omega
    by_cases hcsnil : cs = []
    · subst hcsnil
      simp only [flat_nil, List.length_nil, render_nil, List.length_singleton] at hrender ⊢
      omega
    · rw [render_of_ne hcsnil]
      omega

theorem Bindings.WellFormed.getBinding_of_mounts {t : Bindings} (h : t.WellFormed) {path : CStr}
    {b : Binding} (hpath : IsAbsolute path) (hb : t.mounts (comps path) = some b) :
    t.getBinding .guest path = some b := by
  have hdeep : deepest t.mounts (comps path) = some (comps path, b) := by
    rw [deepest_eq_some_iff]
    refine ⟨List.prefix_rfl, hb, fun ds hds hlt => ?_⟩
    have hle := hds.length_le
    have hlt' := hlt.length_lt
    omega
  rw [h.getBinding_guest_eq hpath, hdeep]
  rfl

/-- A tree mounted over another is what is seen where nothing of the other shows. -/
theorem resolve_covering {M N : List CStr → Option (List CStr)} {s v : List CStr}
    (h : ∀ u, u ≠ [] → u <+: s → N u ≠ none → ∃ u', u <+: u' ∧ u' <+: s ∧ M u' ≠ none) :
    resolve (fun u => if u = [] then some v else (M u).or (N u)) s =
      resolve (fun u => if u = [] then some v else M u) s := by
  rw [← resolve_or (M := fun u => if u = [] then some v else M u)
    (N := fun u => if u = [] then none else N u)]
  · refine resolve_congr fun u _ => ?_
    by_cases hu : u = []
    · simp [hu]
    · simp [hu]
  · intro u hus hN
    by_cases hu : u = []
    · simp [hu] at hN
    · rw [if_neg hu] at hN
      obtain ⟨u', huu, hus', hM⟩ := h u hu hus hN
      refine ⟨u', huu, hus', ?_⟩
      rwa [if_neg]
      intro hnil
      rw [hnil] at huu
      exact hu (List.prefix_nil.1 huu)

theorem nested_mountRequest {w : MountWorld} {c : DirfdCache} {src target fstype : CStr}
    {flags : UInt64} {r : MountRequest} (hreq : mountRequest w c src target fstype flags = some r)
    (hflags : flags &&& (msBind ||| msRec) = msBind ||| msRec) :
    r.nested = snapshotRecursiveBindings w.tracee w.getTracee r.host := by
  rw [mountRequest] at hreq
  by_cases hremount : flags &&& msRemount ≠ 0
  · simp [if_pos hremount] at hreq
  · rw [if_neg hremount] at hreq
    cases hs : mountSource w c src fstype flags with
    | none => simp [hs] at hreq
    | some s =>
      cases hg : mountTarget w target fstype with
      | none => simp [hs, hg] at hreq
      | some guestPath =>
        simp only [hs, hg, if_pos hflags, Option.some.injEq] at hreq
        rw [← hreq]

/-- **What a recursive bind does to the view.**  Below the target a name is looked up in
the tree of the source, and, where nothing of it is in the way, among what was bound below
the target before.  So it shows what another name of the source shows, if the bindings on
it are those below the name the source was found by, and none from below the target is
deeper.  The copies keep their flags, and off the target nothing changes. -/
theorem emulateMount_recursive (w : MountWorld) (c : DirfdCache) (src target fstype : CStr)
    (flags : UInt64) (ht : w.tracee.fs.bindings.Reachable)
    (hflags : flags &&& (msBind ||| msRec) = msBind ||| msRec) {r : MountRequest}
    (hreq : mountRequest w c src target fstype flags = some r) (hhost : IsCanonical r.host)
    (hguest : IsCanonical r.guest) {source : CStr}
    (hsource : nestedSource w.tracee w.getTracee r.host = some source) (hcan : IsCanonical source) :
    (∀ s path, IsCanonical path → path.length + 2 < pathMax → comps path = comps r.guest ++ s →
      (emulateMount w c src target fstype flags).guestView path =
        resolve (fun u => if u = [] then some (comps r.host) else
          (w.tracee.fs.bindings.hosts (comps source ++ u)).or
            (w.tracee.fs.bindings.hosts (comps r.guest ++ u))) s ∧
      ∀ name namePath, IsCanonical name → IsCanonical namePath →
        comps namePath = comps name ++ s →
        w.tracee.fs.bindings.guestView name = some (comps r.host) →
        (∀ u, u ≠ [] → u <+: s → w.tracee.fs.bindings.hosts (comps source ++ u) =
          w.tracee.fs.bindings.hosts (comps name ++ u)) →
        (∀ u, u ≠ [] → u <+: s → w.tracee.fs.bindings.hosts (comps r.guest ++ u) ≠ none →
          ∃ u', u <+: u' ∧ u' <+: s ∧ w.tracee.fs.bindings.hosts (comps name ++ u') ≠ none) →
        (emulateMount w c src target fstype flags).guestView path =
          w.tracee.fs.bindings.guestView namePath) ∧
    (∀ b ∈ w.tracee.fs.bindings.guest, ∀ s path, s ≠ [] → comps b.guest = comps source ++ s →
      IsCanonical path → path.length + 2 < pathMax → comps path = comps r.guest ++ s →
      ∃ x, (emulateMount w c src target fstype flags).getBinding .guest path = some x ∧
        x.SameMount b) ∧
    ∀ path, ¬ comps r.guest <+: comps path →
      (emulateMount w c src target fstype flags).getBinding .guest path =
        w.tracee.fs.bindings.getBinding .guest path := by
  have h := ht.wellFormed
  have halong : r.TakesAlong w.tracee.fs.bindings source :=
    ⟨hcan, (nested_mountRequest hreq hflags).trans (snapshotRecursiveBindings_eq hsource)⟩
  have hr := canonical_of_takesAlong h hhost hguest halong
  have hmount : emulateMount w c src target fstype flags = w.tracee.fs.bindings.mount r := by
    simp only [emulateMount, hreq]
  rw [hmount]
  refine ⟨fun s path hpath hlen hcs => ?_, fun b hb s path hs hbs hpath hlen hcs => ?_,
    fun path hoff => ?_⟩
  · have hview : (w.tracee.fs.bindings.mount r).guestView path =
        resolve (fun u => if u = [] then some (comps r.host) else
          (w.tracee.fs.bindings.hosts (comps source ++ u)).or
            (w.tracee.fs.bindings.hosts (comps r.guest ++ u))) s := by
      have hroot : (w.tracee.fs.bindings.mount r).hosts (comps r.guest) = some (comps r.host) := by
        have heq := hosts_mount_recursive h hr halong []
        rwa [List.append_nil, if_pos rfl] at heq
      rw [(h.mount hr).guestView_eq hpath, hcs, resolve_append_of_mounted hroot]
      refine resolve_congr fun u hu => ?_
      rw [hosts_mount_recursive h hr halong, if_pos (joins_of_length hpath hlen hcs hu)]
    refine ⟨hview, fun name namePath hname hnamePath hcs' hsame hagree hclear => ?_⟩
    rw [h.guestView_eq hname] at hsame
    rw [hview, h.guestView_eq hnamePath, hcs', resolve_append hsame, ← resolve_covering hclear]
    refine resolve_congr fun u hu => ?_
    by_cases hnil : u = []
    · simp [hnil]
    · rw [if_neg hnil, if_neg hnil, hagree u hnil hu]
  · have hj := joins_of_length hpath hlen hcs List.prefix_rfl
    obtain ⟨x, hx, hsame⟩ := mounts_mount_copy h hr halong hb hbs hs hj
    exact ⟨x, (h.mount hr).getBinding_of_mounts hpath.1 (hcs ▸ hx), hsame⟩
  · by_cases hpath : IsAbsolute path
    · rw [(h.mount hr).getBinding_guest_eq hpath, h.getBinding_guest_eq hpath]
      rw [deepest_congr fun cs hcs => mounts_mount_off h hr halong
        fun hpre => hoff (hpre.trans hcs)]
    · simp only [Bindings.getBinding, hpath, not_false_eq_true, if_true]

/-- A guest root with a file system bound at `/n`, and another one at `/n/x`. -/
def nestedRoot : List Op := boundRoot ++ [.insortBinding3 (str "/z") (str "/n/x")]

theorem emulateMount_recursive_nestedRoot :
    (emulateMount (directoryWorld nestedRoot) .init (str "/n") (str "/t") [] (msBind ||| msRec)).guestView
        (str "/t/x/f") =
      (traceeAfter nestedRoot).fs.bindings.guestView (str "/n/x/f") := by
  have hreq : (mountRequest (directoryWorld nestedRoot) .init (str "/n") (str "/t") []
      (msBind ||| msRec)).any (fun r => decide (IsCanonical r.host ∧ comps r.guest = comps (str "/t") ∧
        IsCanonical r.guest ∧
        nestedSource (traceeAfter nestedRoot) (fun _ => none) r.host = some (str "/n") ∧
        (traceeAfter nestedRoot).fs.bindings.guestView (str "/n") = some (comps r.host))) = true := by
    decide +kernel
  have hclear : ∀ u ∈ (comps (str "/x/f")).inits,
      (traceeAfter nestedRoot).fs.bindings.hosts (comps (str "/t") ++ u) = none := by
    decide +kernel
  obtain ⟨r, hr, hgood⟩ := (Option.any_eq_true _ _).1 hreq
  rw [decide_eq_true_eq] at hgood
  obtain ⟨hhost, hcomps, hguest, hsource, hview⟩ := hgood
  have hlaw := emulateMount_recursive (directoryWorld nestedRoot) .init (str "/n") (str "/t") []
    (msBind ||| msRec) (traceeAfter_reachable nestedRoot (by decide)) (by decide) hr hhost hguest
    hsource (by decide)
  refine (hlaw.1 (comps (str "/x/f")) (str "/t/x/f") (by decide) (by decide) ?_).2 (str "/n")
    (str "/n/x/f") (by decide) (by decide) (by decide) hview (fun _ _ _ => rfl) ?_
  · rw [hcomps]
    decide
  · intro u _ hu hne
    rw [hcomps] at hne
    exact absurd (hclear u ((List.mem_inits _ _).2 hu)) hne

/-- What is bound below the target stays in sight. -/
theorem exists_below_target :
    ¬ ∀ (w : MountWorld) (source target suffix : CStr), w.tracee.fs.bindings.Reachable →
      IsCanonical source → IsCanonical target →
      (mountRequest w .init source target [] (msBind ||| msRec)).isSome = true →
      (emulateMount w .init source target [] (msBind ||| msRec)).guestView (target ++ suffix) =
        w.tracee.fs.bindings.guestView (source ++ suffix) := by
  intro hall
  have heq := hall (directoryWorld (boundRoot ++ [.insortBinding3 (str "/z") (str "/t/x")]))
    (str "/n") (str "/t") (str "/x") (traceeAfter_reachable _ (by decide)) (by decide) (by decide)
    (by decide +kernel)
  exact absurd heq (by decide +kernel)

end NeoProot
