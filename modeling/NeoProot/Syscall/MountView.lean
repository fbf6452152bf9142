import NeoProot.Syscall.Mount

/-!
# The mount table under `mount` and `umount`

A mount puts a layer on its place and an `umount` takes the top one off again.  What a
recursive bind copies lands on places of its own below.

## Main definitions

* `Bindings.layersAt` — the layers on a place, the top one first.
* `MountRequest.copies`, `MountRequest.places` — what a recursive bind copies, and where.
-/

namespace NeoProot
open MountTable

namespace Bindings

/-- The layers on a place, the top one first. -/
def layersAt (t : Bindings) (cs : List CStr) : List Layer :=
  match t.mounts cs with
  | none => []
  | some b => b.toLayer :: b.covered

/-- A binding list without what is bound on `guest`. -/
def offPlace (guest : CStr) (l : List Binding) : List Binding :=
  l.filter fun b => decide (b.guest ≠ guest)

end Bindings

/-- A copy of a recursive bind, as the binding that is copied. -/
def RecursiveBinding.binding (r : RecursiveBinding) : Binding where
  addr := 0
  host := r.hostPath
  guest := r.guestSuffix
  readonly := r.readonly
  sourceReadonly := r.sourceReadonly
  needSubstitution := false
  mountFlags := r.mountFlags
  sourceMountFlags := r.sourceMountFlags
  mountKind := r.mountKind
  covered := []

namespace MountRequest

/-- The new binding, as the binding that is copied. -/
def binding (r : MountRequest) : Binding where
  addr := 0
  host := r.host
  guest := r.guest
  readonly := r.readonly
  sourceReadonly := r.readonly
  needSubstitution := false
  mountFlags := r.mountFlags
  sourceMountFlags := r.mountFlags
  mountKind := r.mountKind
  covered := []

/-- What a recursive bind copies, each with the guest path of its copy. -/
def copies (r : MountRequest) : List (CStr × Binding) :=
  r.nested.filterMap fun n =>
    match joinPaths r.guest n.guestSuffix with
    | .error _ => none
    | .ok guestPath => some (guestPath, n.binding)

/-- The places of the copies. -/
def places (r : MountRequest) : List (List CStr) := r.copies.map fun p => comps p.1

/-- The paths of a request are paths that the lists of a table can hold. -/
structure Canonical (r : MountRequest) : Prop where
  host : IsCanonical r.host
  guest : IsCanonical r.guest
  copies : ∀ p ∈ r.copies, IsCanonical p.1 ∧ IsCanonical p.2.host

instance (r : MountRequest) : Decidable r.Canonical :=
  decidable_of_iff (IsCanonical r.host ∧ IsCanonical r.guest ∧
      ∀ p ∈ r.copies, IsCanonical p.1 ∧ IsCanonical p.2.host)
    ⟨fun h => ⟨h.1, h.2.1, h.2.2⟩, fun h => ⟨h.host, h.guest, h.copies⟩⟩

end MountRequest

namespace Bindings

theorem mountOver_eq (t : Bindings) (r : MountRequest) :
    t.mountOver r = (t.copyBinding r.binding r.guest).1 := rfl

/-- A mount is an insertion of its binding and of all copies. -/
theorem mount_eq (t : Bindings) (r : MountRequest) :
    t.mount r = r.copies.foldl (fun t p => (t.copyBinding p.2 p.1).1) (t.mountOver r) := by
  rw [mount, MountRequest.copies]
  generalize t.mountOver r = t'
  induction r.nested generalizing t' with
  | nil => rfl
  | cons n ns ih =>
    rw [List.foldl_cons, List.filterMap_cons, replay]
    cases joinPaths r.guest n.guestSuffix with
    | error e => exact ih t'
    | ok guestPath => exact ih (t'.copyBinding n.binding guestPath).1

@[simp] theorem offPlace_offPlace (guest : CStr) (l : List Binding) :
    offPlace guest (offPlace guest l) = offPlace guest l := by
  simp [offPlace]

namespace WellFormed

variable {t : Bindings} {b : Binding} {guest : CStr} {cs : List CStr}

theorem mounts_eq_find (h : t.WellFormed) (hguest : IsCanonical guest) :
    t.mounts (comps guest) = t.guest.find? fun x => decide (x.guest = guest) := by
  have hsame : ∀ l : List Binding, (∀ x ∈ l, x ∈ t.guest) →
      l.find? (fun x => decide (comps x.guest = comps guest)) =
        l.find? fun x => decide (x.guest = guest) := by
    intro l
    induction l with
    | nil => simp
    | cons x l ih =>
      intro hl
      have hx := (h.canonical .guest x (hl x (by simp))).1.2
      have hiff : comps x.guest = comps guest ↔ x.guest = guest :=
        ⟨canonical_ext hx hguest, fun heq => heq ▸ rfl⟩
      rw [List.find?_cons, List.find?_cons, ih fun y hy => hl y (by simp [hy])]
      simp only [hiff]
  exact hsame t.guest fun x hx => hx

theorem onTop_eq (h : t.WellFormed) (hguest : IsCanonical b.guest) :
    t.onTop b =
      match t.mounts (comps b.guest) with
      | none => b
      | some it => b.covering it := by
  rw [h.mounts_eq_find hguest]
  rfl

/-- The binding that a copy leaves on its place. -/
theorem copyBinding_snd (h : t.WellFormed) (hp : IsCanonical b.host ∧ IsCanonical guest) :
    (t.copyBinding b guest).2 =
      { b with
        addr := t.fresh
        guest := guest
        needSubstitution := decide (b.host ≠ guest)
        covered := t.layersAt (comps guest) } := by
  have hnew : (t.newLayer b.host guest b.mountKind).Canonical := newLayer_canonical hp
  obtain ⟨_, _, _, _, -, -, -, hres⟩ := h.allocate.insortBinding2_eq hnew h.fresh_not_mem
  have hsame : comparePaths b.host guest = .pathsAreEqual ↔ b.host = guest := by
    rw [comparePaths, comparePaths2_eq_equal_iff hp.1.1 hp.2.1]
    exact ⟨canonical_ext hp.1 hp.2, fun heq => heq ▸ rfl⟩
  have htop : (t.insortBinding4 b.host guest b.mountKind).2 =
      Bindings.onTop { t with fresh := t.fresh + 1 }
        (t.newLayer b.host guest b.mountKind).withSubstitution := by
    rw [Bindings.insortBinding4, hres]
  simp only [Bindings.copyBinding, htop]
  rw [h.allocate.onTop_eq hp.2]
  change ((match t.mounts (comps guest) with
    | none => (t.newLayer b.host guest b.mountKind).withSubstitution
    | some it => (t.newLayer b.host guest b.mountKind).withSubstitution.covering it).setAttributes
      b.readonly b.sourceReadonly b.mountFlags b.sourceMountFlags) = _
  rw [layersAt]
  cases t.mounts (comps guest) with
  | none => simp [Binding.withSubstitution, newLayer, Binding.setAttributes, hsame]
  | some it =>
    simp [Binding.withSubstitution, newLayer, Binding.setAttributes, Binding.covering, hsame]

/-! ### A mount -/

theorem copies_wellFormed (h : t.WellFormed) {ps : List (CStr × Binding)}
    (hps : ∀ p ∈ ps, IsCanonical p.1 ∧ IsCanonical p.2.host) :
    (ps.foldl (fun t p => (t.copyBinding p.2 p.1).1) t).WellFormed := by
  induction ps generalizing t with
  | nil => exact h
  | cons p ps ih =>
    have hp := hps p (by simp)
    exact ih (h.copyBinding ⟨hp.2, hp.1⟩) fun q hq => hps q (by simp [hq])

/-- Copies leave every place alone that none of them lands on. -/
theorem mounts_copies_of_not_mem (h : t.WellFormed) {ps : List (CStr × Binding)}
    (hps : ∀ p ∈ ps, IsCanonical p.1 ∧ IsCanonical p.2.host)
    (hcs : cs ∉ ps.map fun p => comps p.1) :
    (ps.foldl (fun t p => (t.copyBinding p.2 p.1).1) t).mounts cs = t.mounts cs := by
  induction ps generalizing t with
  | nil => rfl
  | cons p ps ih =>
    have hp := hps p (by simp)
    rw [List.map_cons, List.mem_cons, not_or] at hcs
    rw [List.foldl_cons, ih (h.copyBinding ⟨hp.2, hp.1⟩) (fun q hq => hps q (by simp [hq])) hcs.2,
      (h.mounts_copyBinding ⟨hp.2, hp.1⟩).2.2.2, if_neg (Ne.symm hcs.1)]

theorem mountOver (h : t.WellFormed) {r : MountRequest} (hr : r.Canonical) :
    (t.mountOver r).WellFormed := by
  have hp : IsCanonical r.binding.host ∧ IsCanonical r.guest := ⟨hr.host, hr.guest⟩
  rw [mountOver_eq]
  exact h.copyBinding hp

theorem mounts_mountOver (h : t.WellFormed) {r : MountRequest} (hr : r.Canonical) (cs : List CStr) :
    (t.mountOver r).mounts cs =
      if comps r.guest = cs then
        some
          { r.binding with
            addr := t.fresh
            needSubstitution := decide (r.host ≠ r.guest)
            covered := t.layersAt cs }
      else t.mounts cs := by
  have hp : IsCanonical r.binding.host ∧ IsCanonical r.guest := ⟨hr.host, hr.guest⟩
  rw [mountOver_eq, (h.mounts_copyBinding hp).2.2.2, h.copyBinding_snd hp]
  by_cases hcs : comps r.guest = cs
  · rw [if_pos hcs, if_pos hcs, hcs]
    rfl
  · rw [if_neg hcs, if_neg hcs]

theorem mount (h : t.WellFormed) {r : MountRequest} (hr : r.Canonical) : (t.mount r).WellFormed := by
  rw [mount_eq]
  exact (h.mountOver hr).copies_wellFormed hr.copies

theorem mounts_mount_of_not_mem (h : t.WellFormed) {r : MountRequest} (hr : r.Canonical)
    (hcs : cs ∉ r.places) : (t.mount r).mounts cs = (t.mountOver r).mounts cs := by
  rw [mount_eq]
  exact (h.mountOver hr).mounts_copies_of_not_mem hr.copies hcs

/-! ### An `umount` -/

theorem mounts_removeBindingAndRestoreCovered (h : t.WellFormed) (hb : t.mounts cs = some b)
    (ds : List CStr) :
    (t.removeBindingAndRestoreCovered b).mounts ds =
      if cs = ds then b.coveredBinding.map Binding.withSubstitution else t.mounts ds := by
  obtain ⟨hbmem, hbcs⟩ := h.mounts_eq_some_iff.1 hb
  have hrem : ∀ ds, (t.removeBindingFromAllLists b.addr).mounts ds =
      if cs = ds then none else t.mounts ds := by
    intro ds
    rw [h.mounts_removeBindingFromAllLists]
    by_cases hds : cs = ds
    · rw [if_pos hds, ← hds, hb]
      simp
    · rw [if_neg hds]
      cases hold : t.mounts ds with
      | none => rfl
      | some x =>
        have hne : x.addr ≠ b.addr := by
          intro heq
          obtain ⟨hx, hxds⟩ := h.mounts_eq_some_iff.1 hold
          have hxb := h.eq_of_addr (List.mem_append_left _ hx) (List.mem_append_left _ hbmem) heq
          rw [hxb, hbcs] at hxds
          exact hds hxds
        rw [Option.filter_some, if_pos (decide_eq_true hne)]
  simp only [Bindings.removeBindingAndRestoreCovered]
  cases hc : b.coveredBinding with
  | none => exact hrem ds
  | some c =>
    have hbc := h.canonical .guest b hbmem
    obtain ⟨hcc, hcg⟩ := hbc.coveredBinding hc
    obtain ⟨hdisj, hnodup, hfresh⟩ := h.covered_apart (List.mem_append_left t.pending hbmem) hc
    rw [(h.removeBindingFromAllLists b.addr).mounts_insortBinding2 hcc hdisj hnodup hfresh, hrem,
      hcg, hbcs]
    by_cases hds : cs = ds
    · rw [if_pos hds, if_pos hds, Option.map_some,
        (h.removeBindingFromAllLists b.addr).onTop_eq (b := c.withSubstitution) hcc.1.2]
      have hplace : comps c.withSubstitution.guest = cs := (congrArg comps hcg).trans hbcs
      rw [hplace, hrem, if_pos rfl]
    · rw [if_neg hds, if_neg hds, if_neg hds]

/-- An `umount` takes the top layer off a place that is not the root. -/
theorem umount_eq (h : t.WellFormed) (hguest : IsCanonical guest) (hroot : guest ≠ ['/']) :
    t.umount guest =
      match t.mounts (comps guest) with
      | none => t
      | some b => t.removeBindingAndRestoreCovered b := by
  rw [Bindings.umount, if_neg hroot, h.getBinding_guest_eq hguest.1]
  cases hm : t.mounts (comps guest) with
  | none =>
    cases hdeep : deepest t.mounts (comps guest) with
    | none => rfl
    | some found =>
      obtain ⟨cs, b⟩ := found
      obtain ⟨hbmem, hbcs⟩ := h.mounts_eq_some_iff.1 (deepest_eq_some_iff.1 hdeep).2.1
      have hne : b.guest ≠ guest := by
        intro heq
        rw [← heq] at hm
        exact mounts_eq_none_iff.1 hm b hbmem rfl
      simp only [Option.map_some, if_pos hne]
  | some b =>
    obtain ⟨hbmem, hbcs⟩ := h.mounts_eq_some_iff.1 hm
    have hdeep : deepest t.mounts (comps guest) = some (comps guest, b) := by
      rw [deepest_eq_some_iff]
      refine ⟨List.prefix_rfl, hm, fun ds hds hlt => ?_⟩
      have hle := hds.length_le
      have hlt' := hlt.length_lt
      omega
    have heq : b.guest = guest := canonical_ext (h.canonical .guest b hbmem).1.2 hguest hbcs
    rw [hdeep]
    simp only [Option.map_some, heq, ne_eq, not_true_eq_false, if_false]

theorem umount (h : t.WellFormed) (hguest : IsCanonical guest) : (t.umount guest).WellFormed := by
  by_cases hroot : guest = ['/']
  · rw [Bindings.umount, if_pos hroot]
    exact h
  · rw [h.umount_eq hguest hroot]
    cases hm : t.mounts (comps guest) with
    | none => exact h
    | some b =>
      exact h.removeBindingAndRestoreCovered
        (List.mem_append_left _ (h.mounts_eq_some_iff.1 hm).1)

theorem mounts_umount (h : t.WellFormed) (hguest : IsCanonical guest) (hroot : guest ≠ ['/'])
    (cs : List CStr) :
    (t.umount guest).mounts cs =
      if comps guest = cs then
        ((t.mounts cs).bind Binding.coveredBinding).map Binding.withSubstitution
      else t.mounts cs := by
  rw [h.umount_eq hguest hroot]
  cases hm : t.mounts (comps guest) with
  | none =>
    by_cases hcs : comps guest = cs
    · rw [if_pos hcs, ← hcs, hm]
      rfl
    · rw [if_neg hcs]
  | some b =>
    change (t.removeBindingAndRestoreCovered b).mounts cs = _
    rw [h.mounts_removeBindingAndRestoreCovered hm]
    by_cases hcs : comps guest = cs
    · rw [if_pos hcs, if_pos hcs, ← hcs, hm, Option.bind_some]
    · rw [if_neg hcs, if_neg hcs]

end WellFormed
end Bindings
end NeoProot
