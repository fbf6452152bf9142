import NeoProot.Syscall.MountView

/-!
# `umount` undoes `mount`

A run of mounts on one place, and as many `umount` calls of that place behind it.  The
layers of the place are a stack, so the run leaves the layers it found; the lists of the
table come back as they were, but for the position of a binding that was covered.

## Main definitions

* `MountCall`, `UmountCall` — the calls of a run, each with its surroundings.
* `copiedPlaces` — where the recursive binds of a run put their copies.
* `umountAll_mountAll` — the law.
-/

namespace NeoProot
open MountTable

variable {t : Bindings} {r : MountRequest}

/-! ### Lists that differ in the place of one element -/

section Insertion

variable {p : Binding → Bool} {l₁ l₂ h₁ h₂ : List Binding} {a y : Binding}

theorem find?_insertion (p : Binding → Bool) (l₁ l₂ : List Binding) (a : Binding) :
    (l₁ ++ a :: l₂).find? p =
      if p a = true ∧ l₁.find? p = none then some a else (l₁ ++ l₂).find? p := by
  rw [List.find?_append, List.find?_append, List.find?_cons]
  cases hl : l₁.find? p with
  | none => cases ha : p a <;> simp
  | some x => simp

variable {key : Binding → List CStr} {q : List CStr}

/-- Where an element whose key is a prefix of the query stands with respect to the first
match of the other elements. -/
theorem find?_front_iff (hord : DeepFirst key (l₁ ++ a :: l₂)) (ha : key a <+: q)
    (hy : (l₁ ++ l₂).find? (fun x => decide (key x <+: q)) = some y) :
    l₁.find? (fun x => decide (key x <+: q)) = none ↔
      StrictPrefix (key y) (key a) ∨ (key y = key a ∧ ∀ x ∈ l₁, key x ≠ key a) := by
  have hyq : key y <+: q := by simpa using List.find?_some hy
  have hymem := List.mem_of_find?_eq_some hy
  have hfront : l₁.find? (fun x => decide (key x <+: q)) ≠ none → y ∈ l₁ := by
    intro hne
    obtain ⟨z, hz⟩ := Option.ne_none_iff_exists'.1 hne
    rw [List.find?_append, hz, Option.some_or, Option.some.injEq] at hy
    exact hy ▸ List.mem_of_find?_eq_some hz
  constructor
  · intro hnone
    have hy₁ : y ∉ l₁ := fun hmem => by
      have hnot := List.find?_eq_none.1 hnone y hmem
      simp [hyq] at hnot
    have hy₂ : y ∈ l₂ := (List.mem_append.1 hymem).resolve_left hy₁
    have hnot := (List.pairwise_cons.1 (List.pairwise_append.1 hord).2.1).1 y hy₂
    by_cases heq : key y = key a
    · refine .inr ⟨heq, fun x hx hxa => ?_⟩
      have hmatch := List.find?_eq_none.1 hnone x hx
      rw [hxa] at hmatch
      simp [ha] at hmatch
    · obtain hle | hle := List.prefix_or_prefix_of_prefix ha hyq
      · exact absurd ⟨hle, fun h => heq h.symm⟩ hnot
      · exact .inl ⟨hle, heq⟩
  · intro hcase
    by_contra hne
    have hy₁ := hfront hne
    obtain hlt | ⟨heq, hall⟩ := hcase
    · exact (List.pairwise_append.1 hord).2.2 y hy₁ a (by simp) hlt
    · exact hall y hy₁ heq

/-- Moving an element does not change the first match if an equal element stays in front
of it, or there is none. -/
theorem find?_moved (hl : DeepFirst key (l₁ ++ a :: l₂)) (hh : DeepFirst key (h₁ ++ a :: h₂))
    (hsame : l₁ ++ l₂ = h₁ ++ h₂) (hequal : (∀ x ∈ l₁, key x ≠ key a) ↔ ∀ x ∈ h₁, key x ≠ key a) :
    (l₁ ++ a :: l₂).find? (fun x => decide (key x <+: q)) =
      (h₁ ++ a :: h₂).find? (fun x => decide (key x <+: q)) := by
  rw [find?_insertion, find?_insertion, hsame]
  by_cases ha : key a <+: q
  · cases hy : (h₁ ++ h₂).find? (fun x => decide (key x <+: q)) with
    | none =>
      have hnone : ∀ l : List Binding, l ⊆ h₁ ++ h₂ →
          l.find? (fun x => decide (key x <+: q)) = none := fun l hl =>
        List.find?_eq_none.2 fun x hx => List.find?_eq_none.1 hy x (hl hx)
      rw [hnone l₁ (hsame ▸ List.subset_append_left l₁ l₂), hnone h₁ (List.subset_append_left _ _)]
    | some y =>
      have hiff₁ := find?_front_iff hl ha (hsame ▸ hy)
      have hiff₂ := find?_front_iff hh ha hy
      simp only [hiff₁, hiff₂, hequal]
  · simp [ha]

end Insertion

namespace Bindings

/-- A HOST insertion stops at the first binding with the same host path. -/
theorem scan_host_equal {path : CStr} (hpath : IsAbsolute path) {l : List Binding}
    (hl : ∀ x ∈ l, IsAbsolute (x.ref .host)) (heq : ∃ x ∈ l, x.key .host = comps path) (i : ℕ)
    (prev : Option ℕ) (next : ℕ) :
    ∃ k, k < l.length ∧ (∃ x, l[k]? = some x ∧ x.key .host = comps path) ∧
      ∃ n, scan .host path i prev next l = .place (some (i + k)) n := by
  induction l generalizing i prev next with
  | nil =>
    obtain ⟨x, hx, -⟩ := heq
    simp at hx
  | cons x l ih =>
    have hx := hl x (by simp)
    by_cases hsame : x.key .host = comps path
    · refine ⟨0, by simp, ⟨x, rfl, hsame⟩, next, ?_⟩
      rw [scan, (comparePaths2_eq_equal_iff hpath hx).2 hsame.symm]
      rfl
    · obtain ⟨y, hy, hyeq⟩ := heq
      have hy' : y ∈ l := (List.mem_cons.1 hy).resolve_left fun h => hsame (h ▸ hyeq)
      have hne : comparePaths2 path (x.ref .host) ≠ .pathsAreEqual := fun h =>
        hsame ((comparePaths2_eq_equal_iff hpath hx).1 h).symm
      have hrest := fun prev next =>
        ih (fun z hz => hl z (by simp [hz])) ⟨y, hy', hyeq⟩ (i + 1) prev next
      have hlift : ∀ prev' next', scan .host path i prev next (x :: l) =
            scan .host path (i + 1) prev' next' l →
          ∃ k, k < (x :: l).length ∧ (∃ z, (x :: l)[k]? = some z ∧ z.key .host = comps path) ∧
            ∃ n, scan .host path i prev next (x :: l) = .place (some (i + k)) n := by
        intro prev' next' hscan
        obtain ⟨k, hk, hz, n, hn⟩ := hrest prev' next'
        refine ⟨k + 1, by simp [hk], by simpa using hz, n, ?_⟩
        rw [hscan, hn, Nat.add_assoc, Nat.add_comm 1 k]
      cases hcmp : comparePaths2 path (x.ref .host) with
      | pathsAreEqual => exact absurd hcmp hne
      | path1IsPrefix => exact hlift (some i) next (by rw [scan, hcmp])
      | path2IsPrefix => exact hlift prev (if next = 0 then i else next) (by rw [scan, hcmp])
      | pathsAreNotComparable => exact hlift prev next (by rw [scan, hcmp])

/-- The HOST list behind an insertion: a binding with a host path that is bound already
stands behind another one of it. -/
theorem insortBinding_host_behind {b : Binding} (hb : IsAbsolute b.host)
    (ht : ∀ x ∈ t.host, IsAbsolute x.host) (heq : ∃ x ∈ t.host, x.key .host = b.key .host) :
    ∃ l₁ l₂, (t.insortBinding .host b).1.host = l₁ ++ b :: l₂ ∧ l₁ ++ l₂ = t.host ∧
      ∃ x ∈ l₁, x.key .host = b.key .host := by
  obtain ⟨k, hk, ⟨x, hx, hxb⟩, n, hscan⟩ := scan_host_equal hb ht heq 0 none 0
  refine ⟨t.host.take (k + 1), t.host.drop (k + 1), ?_, List.take_append_drop _ _, x, ?_, hxb⟩
  · rw [Nat.zero_add] at hscan
    have hplace : scan .host (b.ref .host) 0 none 0 (t.head .host) = .place (some k) n := hscan
    rw [insortBinding, hplace]
    rfl
  · rw [List.mem_take_iff_getElem]
    obtain ⟨hlt, hget⟩ := List.getElem?_eq_some_iff.1 hx
    exact ⟨k, by omega, hget⟩

namespace WellFormed

variable {t : Bindings} {b : Binding} {guest : CStr} {cs : List CStr}

theorem find_eq_of_mounts (h : t.WellFormed) (hguest : IsCanonical guest) :
    t.mounts (comps guest) = some b ↔ b ∈ t.guest ∧ b.guest = guest := by
  rw [h.mounts_eq_some_iff]
  refine and_congr_right fun hb => ?_
  exact ⟨canonical_ext (h.canonical .guest b hb).1.2 hguest, fun heq => heq ▸ rfl⟩

/-- The binding that `insort_binding2` inserts stands behind one with its host path, if
there is one. -/
theorem insortBinding2_behind (h : t.WellFormed) (hb : b.Canonical) (hdisj : b.addr ∉ t.addrs)
    {h₁ h₂ : List Binding} (hh : t.host.filter (fun x => decide (x.guest ≠ b.guest)) = h₁ ++ h₂)
    (hres : (t.insortBinding2 b).1.host = h₁ ++ t.onTop b.withSubstitution :: h₂)
    (hequal : ∃ x ∈ h₁ ++ h₂, x.key .host = b.key .host) : ∃ x ∈ h₁, x.key .host = b.key .host := by
  obtain ⟨g₁, g₂, -, hguest⟩ := h.insortBinding_guest (b := b.withSubstitution) hb hdisj
  have htop : (t.onTop b.withSubstitution).guest = b.guest := onTop_guest _ _
  have hkey : (t.onTop b.withSubstitution).key .host = b.key .host :=
    congrArg comps (onTop_host t b.withSubstitution)
  have htopabs : IsAbsolute (t.onTop b.withSubstitution).host := by
    rw [onTop_host]
    exact hb.1.1.1
  simp only [Bindings.insortBinding2, hguest] at hres
  change t.host.filter (fun x => decide (x.guest ≠ b.withSubstitution.guest)) = _ at hh
  rw [hh] at hres
  have habs : ∀ x ∈ h₁ ++ h₂, IsAbsolute x.host := by
    intro x hx
    rw [← hh] at hx
    exact h.absolute.refs .host .host x (List.mem_of_mem_filter hx)
  obtain ⟨l₁, l₂, hl, hsplit, x, hx, hxb⟩ := insortBinding_host_behind
    (t := { t with guest := g₁ ++ t.onTop b.withSubstitution :: g₂, host := h₁ ++ h₂ })
    htopabs habs (hkey ▸ hequal)
  have hnot : ∀ m : List Binding, (∀ y ∈ m, y ∈ h₁ ++ h₂) → t.onTop b.withSubstitution ∉ m := by
    intro m hm hmem
    have hmem' := hm _ hmem
    rw [← hh, List.mem_filter, decide_eq_true_eq] at hmem'
    exact hmem'.2 htop
  rw [hl] at hres
  have heq := (List.append_cons_inj_of_notMem
    (hnot l₁ fun y hy => by
      rw [show h₁ ++ h₂ = l₁ ++ l₂ from hsplit.symm]
      simp [hy])
    (hnot l₂ fun y hy => by
      rw [show h₁ ++ h₂ = l₁ ++ l₂ from hsplit.symm]
      simp [hy])).1 hres
  rw [← heq.1]
  exact ⟨x, hx, hxb.trans hkey⟩

/-- A mount leaves the lists alone off its place. -/
theorem offPlace_mountOver (h : t.WellFormed) (hr : r.Canonical) :
    offPlace r.guest (t.mountOver r).guest = offPlace r.guest t.guest ∧
      offPlace r.guest (t.mountOver r).host = offPlace r.guest t.host := by
  have hnew : (t.newLayer r.host r.guest r.mountKind).Canonical :=
    newLayer_canonical ⟨hr.host, hr.guest⟩
  obtain ⟨g₁, g₂, h₁, h₂, hg, hh, -, hres⟩ := h.allocate.insortBinding2_eq hnew h.fresh_not_mem
  have hkeep : ∀ (l l₁ l₂ : List Binding) (x : Binding), (∀ y ∈ l, y.addr ≠ t.fresh) →
      x.guest = r.guest → l.filter (fun y => decide (y.guest ≠ r.guest)) = l₁ ++ l₂ →
      offPlace r.guest ((l₁ ++ x :: l₂).map fun y => if y.addr = t.fresh then
        y.setAttributes r.readonly r.readonly r.mountFlags r.mountFlags else y) =
        offPlace r.guest l := by
    intro l l₁ l₂ x hl hx hsplit
    have hold : ∀ y ∈ l₁ ++ l₂, y.addr ≠ t.fresh := by
      intro y hy
      rw [← hsplit] at hy
      exact hl y (List.mem_of_mem_filter hy)
    have hself : ∀ m : List Binding, (∀ y ∈ m, y ∈ l₁ ++ l₂) →
        (m.map fun y => if y.addr = t.fresh then
          y.setAttributes r.readonly r.readonly r.mountFlags r.mountFlags else y) = m := by
      intro m hm
      conv_rhs => rw [← List.map_id m]
      refine List.map_congr_left fun y hy => ?_
      rw [if_neg (hold y (hm y hy))]
      rfl
    rw [List.map_append, List.map_cons, hself l₁ (fun y hy => by simp [hy]),
      hself l₂ (fun y hy => by simp [hy])]
    have hxg : (if x.addr = t.fresh then
        x.setAttributes r.readonly r.readonly r.mountFlags r.mountFlags else x).guest = r.guest := by
      split
      · exact hx
      · exact hx
    rw [offPlace, List.filter_append, List.filter_cons, hxg]
    simp only [ne_eq, not_true_eq_false, decide_false, Bool.false_eq_true, if_false]
    rw [← List.filter_append, ← hsplit]
    exact offPlace_offPlace r.guest l
  have htop : (Bindings.onTop { t with fresh := t.fresh + 1 }
      (t.newLayer r.host r.guest r.mountKind).withSubstitution).guest = r.guest := onTop_guest _ _
  have haddr : (Bindings.onTop { t with fresh := t.fresh + 1 }
      (t.newLayer r.host r.guest r.mountKind).withSubstitution).addr = t.fresh := onTop_addr _ _
  have hne : ∀ y ∈ t.guest, y.addr ≠ t.fresh := by
    intro y hy
    have hlt := h.fresh _ (addr_mem (List.mem_append_left _ hy))
    omega
  rw [Bindings.mountOver, Bindings.insortBinding4, hres]
  simp only [update, haddr]
  exact ⟨hkeep t.guest g₁ g₂ _ hne htop hg,
    hkeep t.host h₁ h₂ _ (fun y hy => hne y (h.perm.mem_iff.2 hy)) htop hh⟩

/-- An `umount` leaves the lists alone off its place, and puts the binding it uncovers
where an insertion puts it. -/
theorem host_umount (h : t.WellFormed) (hguest : IsCanonical guest) (hroot : guest ≠ ['/']) :
    offPlace guest (t.umount guest).guest = offPlace guest t.guest ∧
      offPlace guest (t.umount guest).host = offPlace guest t.host ∧
      ∀ b, (t.umount guest).mounts (comps guest) = some b → t.mounts (comps guest) ≠ none →
        ∃ h₁ h₂, (t.umount guest).host = h₁ ++ b :: h₂ ∧ h₁ ++ h₂ = offPlace guest t.host ∧
          Place (Binding.key .host) (b.key .host) h₁ h₂ ∧
          ((∃ x ∈ h₁ ++ h₂, x.key .host = b.key .host) → ∃ x ∈ h₁, x.key .host = b.key .host) := by
  have hmounts := h.mounts_umount hguest hroot (comps guest)
  rw [if_pos rfl] at hmounts
  rw [h.umount_eq hguest hroot] at hmounts ⊢
  cases hm : t.mounts (comps guest) with
  | none => exact ⟨rfl, rfl, fun b _ hne => absurd rfl hne⟩
  | some b =>
    rw [hm] at hmounts
    simp only [Option.bind_some, Bindings.removeBindingAndRestoreCovered] at hmounts ⊢
    obtain ⟨hb, hbg⟩ := (h.find_eq_of_mounts hguest).1 hm
    have hguests : (t.removeBindingFromAllLists b.addr).guest = offPlace guest t.guest := by
      rw [offPlace, ← hbg]
      exact h.filter_addr_eq hb fun x hx => hx
    have hhosts : (t.removeBindingFromAllLists b.addr).host = offPlace guest t.host := by
      rw [offPlace, ← hbg]
      exact h.filter_addr_eq hb fun x hx => h.perm.mem_iff.2 hx
    cases hc : b.coveredBinding with
    | none =>
      rw [hc] at hmounts
      refine ⟨?_, ?_, fun b' hb' => ?_⟩
      · change offPlace guest (t.removeBindingFromAllLists b.addr).guest = _
        rw [hguests, offPlace_offPlace]
      · change offPlace guest (t.removeBindingFromAllLists b.addr).host = _
        rw [hhosts, offPlace_offPlace]
      · change (t.removeBindingFromAllLists b.addr).mounts (comps guest) = some b' at hb'
        change (t.removeBindingFromAllLists b.addr).mounts (comps guest) = none at hmounts
        rw [hmounts] at hb'
        simp at hb'
    | some c =>
      rw [hc] at hmounts
      obtain ⟨hcc, hcg⟩ := (h.canonical .guest b hb).coveredBinding hc
      have hcguest : c.guest = guest := hcg.trans hbg
      have hrem := h.removeBindingFromAllLists b.addr
      have hcaddr : c.addr ∉ (t.removeBindingFromAllLists b.addr).addrs :=
        (h.covered_apart (List.mem_append_left t.pending hb) hc).1 c.addr (by simp [Binding.chain])
      obtain ⟨g₁, g₂, h₁, h₂, hg, hh, hplace, hres⟩ := hrem.insortBinding2_eq hcc hcaddr
      have htop : (t.removeBindingFromAllLists b.addr).onTop c.withSubstitution =
          c.withSubstitution := by
        obtain ⟨-, heq⟩ | ⟨it, hit, hitg, -⟩ := onTop_cases
          (t.removeBindingFromAllLists b.addr) c.withSubstitution
        · exact heq
        · rw [hguests, offPlace, List.mem_filter, decide_eq_true_eq] at hit
          exact absurd (hitg.trans hcguest) hit.2
      rw [htop] at hres
      rw [hcguest, hguests] at hg
      rw [hcguest, hhosts] at hh
      change offPlace guest (offPlace guest t.guest) = _ at hg
      change offPlace guest (offPlace guest t.host) = _ at hh
      rw [offPlace_offPlace] at hg hh
      have hoff : ∀ l₁ l₂ : List Binding, offPlace guest t.guest = l₁ ++ l₂ ∨
          offPlace guest t.host = l₁ ++ l₂ →
          offPlace guest (l₁ ++ c.withSubstitution :: l₂) = l₁ ++ l₂ := by
        intro l₁ l₂ hsplit
        have hcw : c.withSubstitution.guest = guest := hcguest
        rw [offPlace, List.filter_append, List.filter_cons, hcw]
        simp only [ne_eq, not_true_eq_false, decide_false, Bool.false_eq_true, if_false]
        rw [← List.filter_append]
        obtain hsplit | hsplit := hsplit
        · rw [← hsplit]
          exact offPlace_offPlace guest t.guest
        · rw [← hsplit]
          exact offPlace_offPlace guest t.host
      simp only [hres] at hmounts ⊢
      refine ⟨(hoff g₁ g₂ (.inl hg)).trans hg.symm, (hoff h₁ h₂ (.inr hh)).trans hh.symm,
        fun b' hb' _ => ?_⟩
      rw [hmounts, Option.map_some, Option.some.injEq] at hb'
      subst hb'
      refine ⟨h₁, h₂, rfl, hh.symm, hplace, fun hequal => ?_⟩
      have hrest : offPlace c.guest (t.removeBindingFromAllLists b.addr).host = h₁ ++ h₂ := by
        rw [hcguest, hhosts]
        exact (offPlace_offPlace guest t.host).trans hh
      refine hrem.insortBinding2_behind hcc hcaddr hrest ?_ hequal
      rw [hres, htop]

end WellFormed
end Bindings

/-! ### The calls of a run -/

/-- The same surroundings around another binding table. -/
def MountWorld.withBindings (w : MountWorld) (t : Bindings) : MountWorld :=
  { w with tracee := { w.tracee with fs := { w.tracee.fs with bindings := t } } }

/-- A call of `mount`. -/
structure MountCall where
  world : MountWorld
  cache : DirfdCache
  src : CStr
  target : CStr
  fstype : CStr
  flags : UInt64

/-- A call of `umount`. -/
structure UmountCall where
  world : MountWorld
  target : CStr

/-- What the call asks of the table it meets. -/
def MountCall.request (t : Bindings) (c : MountCall) : Option MountRequest :=
  mountRequest (c.world.withBindings t) c.cache c.src c.target c.fstype c.flags

/-- The table that the call leaves. -/
def MountCall.step (t : Bindings) (c : MountCall) : Bindings :=
  emulateMount (c.world.withBindings t) c.cache c.src c.target c.fstype c.flags

/-- The table that the call leaves. -/
def UmountCall.step (t : Bindings) (c : UmountCall) : Bindings :=
  emulateUmount (c.world.withBindings t) c.target

/-- The call adds a binding on `guest`. -/
def MountCall.PutsOn (guest : CStr) (t : Bindings) (c : MountCall) : Prop :=
  ∃ r, c.request t = some r ∧ r.guest = guest ∧ r.Canonical

instance (guest : CStr) (t : Bindings) (c : MountCall) : Decidable (c.PutsOn guest t) :=
  decidable_of_iff ((c.request t).any fun r => decide (r.guest = guest ∧ r.Canonical))
    (by simp [MountCall.PutsOn, Option.any_eq_true])

/-- The target of the call is `guest`. -/
def UmountCall.TakesOff (guest : CStr) (t : Bindings) (c : UmountCall) : Prop :=
  guestCanonicalize (c.world.withBindings t).toWorld c.target = .ok guest

instance (guest : CStr) (t : Bindings) (c : UmountCall) : Decidable (c.TakesOff guest t) :=
  inferInstanceAs (Decidable (_ = _))

/-- Where the recursive binds of a run put their copies. -/
def copiedPlaces (t : Bindings) : List MountCall → List (List CStr)
  | [] => []
  | c :: cs => ((c.request t).map MountRequest.places).getD [] ++ copiedPlaces (c.step t) cs

theorem MountCall.step_eq {c : MountCall} (h : c.request t = some r) : c.step t = t.mount r := by
  rw [MountCall.request] at h
  rw [MountCall.step, emulateMount, h]
  rfl

theorem UmountCall.step_eq {c : UmountCall} {guest : CStr} (h : c.TakesOff guest t) :
    c.step t = t.umount guest := by
  rw [UmountCall.TakesOff] at h
  rw [UmountCall.step, emulateUmount, h]
  rfl

namespace Bindings

theorem mounts_eq_of_layersAt {s : Bindings} {cs : List CStr} (h : s.layersAt cs = t.layersAt cs) :
    s.mounts cs = t.mounts cs := by
  rw [layersAt, layersAt] at h
  cases hs : s.mounts cs with
  | none =>
    cases ht : t.mounts cs with
    | none => rfl
    | some b => simp [hs, ht] at h
  | some a =>
    cases ht : t.mounts cs with
    | none => simp [hs, ht] at h
    | some b =>
      simp only [hs, ht, List.cons.injEq] at h
      obtain ⟨a, as⟩ := a
      obtain ⟨b, bs⟩ := b
      simp only at h
      rw [h.1, h.2]

/-- The layers that are left when the top one goes. -/
def uncovered : List Layer → List Layer
  | [] => []
  | l :: ls =>
    ({ toLayer := l, covered := ls } : Binding).withSubstitution.toLayer :: ls

theorem length_uncovered (ls : List Layer) : (uncovered ls).length = ls.length := by
  cases ls <;> rfl

theorem uncovered_append {ls : List Layer} (hne : ls ≠ []) (ms : List Layer) :
    uncovered (ls ++ ms) = uncovered ls ++ ms := by
  cases ls with
  | nil => exact absurd rfl hne
  | cons l ls => rfl

namespace WellFormed

variable {t : Bindings} {guest : CStr} {cs : List CStr}

theorem layersAt_mountOver (h : t.WellFormed) (hr : r.Canonical) :
    ∃ l, (t.mountOver r).layersAt (comps r.guest) = l :: t.layersAt (comps r.guest) := by
  rw [layersAt, h.mounts_mountOver hr, if_pos rfl]
  exact ⟨_, rfl⟩

theorem layersAt_umount (h : t.WellFormed) (hguest : IsCanonical guest) (hroot : guest ≠ ['/']) :
    (t.umount guest).layersAt (comps guest) = uncovered (t.layersAt (comps guest)).tail := by
  rw [layersAt, h.mounts_umount hguest hroot, if_pos rfl, layersAt]
  cases t.mounts (comps guest) with
  | none => rfl
  | some b =>
    obtain ⟨l, ls⟩ := b
    cases ls <;> rfl

/-- The layers of a table have their substitution set for the top one. -/
theorem uncovered_layersAt (h : t.WellFormed) : uncovered (t.layersAt cs) = t.layersAt cs := by
  rw [layersAt]
  cases hm : t.mounts cs with
  | none => rfl
  | some b =>
    obtain ⟨hb, -⟩ := h.mounts_eq_some_iff.1 hm
    have hsub := h.substitution b hb
    have hcan := (h.canonical .guest b hb).1
    have hiff : comparePaths b.host b.guest = .pathsAreEqual ↔ b.host = b.guest := by
      rw [comparePaths, comparePaths2_eq_equal_iff hcan.1.1 hcan.2.1]
      exact ⟨canonical_ext hcan.1 hcan.2, fun heq => heq ▸ rfl⟩
    obtain ⟨l, ls⟩ := b
    simp only [uncovered, Binding.withSubstitution, ne_eq, hiff]
    simp only [ne_eq] at hsub
    rw [← hsub]

/-! ### Stacks of layers -/

/-- A run of mounts on one place puts a layer for each on it, and leaves every other
place alone that no copy lands on. -/
theorem mountAll (h : t.WellFormed) {mounts : List MountCall}
    (hmounts : Run.AllSteps MountCall.step (MountCall.PutsOn guest) t mounts)
    (hcs : cs ∉ copiedPlaces t mounts) :
    (mounts.foldl MountCall.step t).WellFormed ∧
      (comps guest ≠ cs → (mounts.foldl MountCall.step t).mounts cs = t.mounts cs) ∧
      (comps guest = cs → ∃ new : List Layer, new.length = mounts.length ∧
        (mounts.foldl MountCall.step t).layersAt cs = new ++ t.layersAt cs) := by
  induction mounts generalizing t with
  | nil => exact ⟨h, fun _ => rfl, fun _ => ⟨[], rfl, rfl⟩⟩
  | cons c mounts ih =>
    rw [Run.allSteps_cons] at hmounts
    obtain ⟨⟨r, hreq, hguest, hr⟩, hrest⟩ := hmounts
    rw [copiedPlaces, hreq, List.mem_append, not_or] at hcs
    have hplace : cs ∉ r.places := hcs.1
    have hstep := MountCall.step_eq hreq
    have hwf : (c.step t).WellFormed := hstep ▸ h.mount hr
    have hnow : (c.step t).mounts cs = (t.mountOver r).mounts cs := by
      rw [hstep, h.mounts_mount_of_not_mem hr hplace]
    obtain ⟨hend, hother, hsame⟩ := ih hwf hrest hcs.2
    rw [List.foldl_cons]
    refine ⟨hend, fun hne => ?_, fun heq => ?_⟩
    · rw [hother hne, hnow, h.mounts_mountOver hr, if_neg (by rw [hguest]; exact hne)]
    · obtain ⟨new, hlen, hlayers⟩ := hsame heq
      obtain ⟨l, hl⟩ := h.layersAt_mountOver hr
      rw [hguest, heq] at hl
      refine ⟨new ++ [l], by simp [hlen], ?_⟩
      have hnow' : (c.step t).layersAt cs = (t.mountOver r).layersAt cs := by
        rw [layersAt, hnow, layersAt]
      rw [hlayers, hnow', hl, List.append_assoc, List.singleton_append]

/-- A run of `umount` calls of one place takes a layer for each off it. -/
theorem umountAll {s : Bindings} (hs : s.WellFormed) (h : t.WellFormed) (hguest : IsCanonical guest)
    (hroot : guest ≠ ['/']) {umounts : List UmountCall}
    (humounts : Run.AllSteps UmountCall.step (UmountCall.TakesOff guest) s umounts) :
    (umounts.foldl UmountCall.step s).WellFormed ∧
      (∀ cs, comps guest ≠ cs → (umounts.foldl UmountCall.step s).mounts cs = s.mounts cs) ∧
      (∀ new : List Layer, new.length = umounts.length →
        s.layersAt (comps guest) = new ++ t.layersAt (comps guest) →
          (umounts.foldl UmountCall.step s).layersAt (comps guest) = t.layersAt (comps guest)) := by
  induction umounts generalizing s with
  | nil =>
    refine ⟨hs, fun _ _ => rfl, fun new hlen hlayers => ?_⟩
    rw [List.length_nil, List.length_eq_zero_iff] at hlen
    rw [List.foldl_nil, hlayers, hlen, List.nil_append]
  | cons c umounts ih =>
    rw [Run.allSteps_cons] at humounts
    obtain ⟨hoff, hrest⟩ := humounts
    have hstep := UmountCall.step_eq hoff
    rw [hstep] at hrest
    obtain ⟨hend, hother, hsame⟩ := ih (hs.umount hguest) hrest
    rw [List.foldl_cons, hstep]
    refine ⟨hend, fun cs hne => ?_, fun new hlen hlayers => ?_⟩
    · rw [hother cs hne, hs.mounts_umount hguest hroot, if_neg hne]
    · cases new with
      | nil => simp at hlen
      | cons l new =>
        have hlen' : new.length = umounts.length := by simpa using hlen
        have hnext := hs.layersAt_umount hguest hroot
        rw [hlayers, List.cons_append, List.tail_cons] at hnext
        by_cases hnil : new = []
        · rw [hnil, List.nil_append, h.uncovered_layersAt] at hnext
          exact hsame [] (by rw [← hlen', hnil]) hnext
        · rw [uncovered_append hnil] at hnext
          exact hsame _ ((length_uncovered new).trans hlen') hnext

/-! ### The lists off the place -/

theorem mount_of_places_nil (hr : r.places = []) (t : Bindings) : t.mount r = t.mountOver r := by
  rw [MountRequest.places, List.map_eq_nil_iff] at hr
  rw [mount_eq, hr, List.foldl_nil]

theorem offPlace_mountAll (h : t.WellFormed) {mounts : List MountCall}
    (hmounts : Run.AllSteps MountCall.step (MountCall.PutsOn guest) t mounts)
    (hcopied : copiedPlaces t mounts = []) :
    offPlace guest (mounts.foldl MountCall.step t).guest = offPlace guest t.guest ∧
      offPlace guest (mounts.foldl MountCall.step t).host = offPlace guest t.host := by
  induction mounts generalizing t with
  | nil => exact ⟨rfl, rfl⟩
  | cons c mounts ih =>
    rw [Run.allSteps_cons] at hmounts
    obtain ⟨⟨r, hreq, hguest, hr⟩, hrest⟩ := hmounts
    rw [copiedPlaces, hreq, List.append_eq_nil_iff] at hcopied
    have hstep : c.step t = t.mountOver r :=
      (MountCall.step_eq hreq).trans (mount_of_places_nil hcopied.1 t)
    have hwf : (c.step t).WellFormed := hstep ▸ h.mountOver hr
    have hlists := h.offPlace_mountOver hr
    rw [hguest, ← hstep] at hlists
    have hend := ih hwf hrest hcopied.2
    rw [List.foldl_cons]
    exact ⟨hend.1.trans hlists.1, hend.2.trans hlists.2⟩

theorem offPlace_umountAll (h : t.WellFormed) (hguest : IsCanonical guest) (hroot : guest ≠ ['/'])
    {umounts : List UmountCall}
    (humounts : Run.AllSteps UmountCall.step (UmountCall.TakesOff guest) t umounts) :
    offPlace guest (umounts.foldl UmountCall.step t).guest = offPlace guest t.guest ∧
      offPlace guest (umounts.foldl UmountCall.step t).host = offPlace guest t.host := by
  induction umounts generalizing t with
  | nil => exact ⟨rfl, rfl⟩
  | cons c umounts ih =>
    rw [Run.allSteps_cons] at humounts
    obtain ⟨hoff, hrest⟩ := humounts
    rw [UmountCall.step_eq hoff] at hrest
    have hlists := h.host_umount hguest hroot
    have hend := ih (h.umount hguest) hrest
    rw [List.foldl_cons, UmountCall.step_eq hoff]
    exact ⟨hend.1.trans hlists.1, hend.2.trans hlists.2.1⟩

theorem offPlace_of_mounts_none (h : t.WellFormed) (hguest : IsCanonical guest)
    (hnone : t.mounts (comps guest) = none) :
    offPlace guest t.guest = t.guest ∧ offPlace guest t.host = t.host := by
  have hne : ∀ x ∈ t.guest, x.guest ≠ guest := by
    intro x hx heq
    have hsome := (h.find_eq_of_mounts hguest).2 ⟨hx, heq⟩
    rw [hnone] at hsome
    simp at hsome
  constructor
  · exact List.filter_eq_self.2 fun x hx => decide_eq_true (hne x hx)
  · exact List.filter_eq_self.2 fun x hx => decide_eq_true (hne x (h.perm.mem_iff.2 hx))

end WellFormed

/-- The binding `a` is not the first of several with its host path. -/
def NotFirstShared (t : Bindings) (a : Binding) : Prop :=
  t.host.find? (fun x => decide (x.host = a.host)) = some a → ∀ x ∈ t.host, x.host = a.host → x = a

instance (t : Bindings) (a : Binding) : Decidable (t.NotFirstShared a) :=
  inferInstanceAs (Decidable (_ → _))

/-- The HOST list is in order, and so it is when `a` is inserted into the rest of it. -/
def ReturnsInOrder (t : Bindings) (a : Binding) : Prop :=
  DeepFirst (Binding.key .host) t.host ∧
    ¬ Misplaced (Binding.key .host) (a.key .host) (offPlace a.guest t.host)

instance (t : Bindings) (a : Binding) : Decidable (t.ReturnsInOrder a) :=
  inferInstanceAs (Decidable (_ ∧ _))

namespace WellFormed

variable {t s : Bindings} {guest : CStr} {a : Binding}

/-- A table that lists the same bindings, one of them at another position, where an
insertion puts it. -/
theorem getBinding_host_moved (h : t.WellFormed) (hs : s.WellFormed) (ha : a ∈ t.host)
    {h₁ h₂ : List Binding} (hhost : s.host = h₁ ++ a :: h₂)
    (hoff : h₁ ++ h₂ = offPlace a.guest t.host)
    (hplace : Place (Binding.key .host) (a.key .host) h₁ h₂)
    (hbehind : (∃ x ∈ h₁ ++ h₂, x.key .host = a.key .host) → ∃ x ∈ h₁, x.key .host = a.key .host)
    (hreturns : t.ReturnsInOrder a) {path : CStr} (hpath : IsAbsolute path) :
    (s.getBinding .host path).map (·.host) = (t.getBinding .host path).map (·.host) ∧
      (t.NotFirstShared a → s.getBinding .host path = t.getBinding .host path) := by
  obtain ⟨hord, hfits⟩ := hreturns
  obtain ⟨l₁, l₂, hl⟩ := List.append_of_mem ha
  have ha' : a ∈ t.guest := h.perm.mem_iff.2 ha
  have hrest : offPlace a.guest t.host = l₁ ++ l₂ := by
    have hnodup := List.Nodup.of_map _ h.unique
    rw [h.perm.nodup_iff, hl, List.nodup_middle, List.nodup_cons] at hnodup
    have hkeep : ∀ x ∈ l₁ ++ l₂, decide (x.guest ≠ a.guest) = true := by
      intro x hx
      have hxt : x ∈ t.host := by
        rw [hl]
        simp only [List.mem_append, List.mem_cons] at hx ⊢
        tauto
      exact decide_eq_true fun hg =>
        hnodup.1 (h.eq_of_guest (h.perm.mem_iff.2 hxt) ha' hg ▸ hx)
    rw [offPlace, hl, List.filter_append, List.filter_cons,
      List.filter_eq_self.2 fun x hx => hkeep x (by simp [hx]),
      List.filter_eq_self.2 fun x hx => hkeep x (by simp [hx])]
    simp
  have hsame : l₁ ++ l₂ = h₁ ++ h₂ := hrest.symm.trans hoff.symm
  have hords : DeepFirst (Binding.key .host) (h₁ ++ a :: h₂) := by
    refine (hplace.deepFirst_iff ?_ rfl).2 (hoff ▸ hfits)
    rw [hoff]
    exact hord.sublist List.filter_sublist
  have hmem : ∀ x, x ∈ s.host ↔ x ∈ t.host := by
    intro x
    have hx : x ∈ l₁ ++ l₂ ↔ x ∈ h₁ ++ h₂ := by rw [hsame]
    rw [hhost, hl]
    simp only [List.mem_append, List.mem_cons] at hx ⊢
    tauto
  rw [getBinding_host_eq hs.absolute hpath, getBinding_host_eq h.absolute hpath]
  constructor
  · cases hft : t.host.find? (fun b => decide (b.key .host <+: comps path)) with
    | none =>
      rw [List.find?_eq_none.2 fun x hx => List.find?_eq_none.1 hft x ((hmem x).1 hx)]
    | some b =>
      have hb := List.mem_of_find?_eq_some hft
      have hbp : b.key .host <+: comps path := by simpa using List.find?_some hft
      cases hfs : s.host.find? (fun b => decide (b.key .host <+: comps path)) with
      | none =>
        have hnot := List.find?_eq_none.1 hfs b ((hmem b).2 hb)
        simp [hbp] at hnot
      | some c =>
        have hc := List.mem_of_find?_eq_some hfs
        have hcp : c.key .host <+: comps path := by simpa using List.find?_some hfs
        -- Either of them is a longest match, so their host paths are the same.
        have hcb := hord.find_longest hft c ((hmem c).1 hc) hcp
        rw [hhost] at hfs
        have hbc := hords.find_longest hfs b (hhost ▸ (hmem b).2 hb) hbp
        have hkey : b.key .host = c.key .host := hbc.eq_of_length_le hcb.length_le
        rw [Option.map_some, Option.map_some, canonical_ext (h.canonical .host b hb).1.1
          (hs.canonical .host c hc).1.1 hkey]
  · intro hshared
    have hkeys : ∀ x ∈ t.host, (x.key .host = a.key .host ↔ x.host = a.host) := by
      intro x hx
      exact ⟨canonical_ext (h.canonical .host x hx).1.1 (h.canonical .host a ha).1.1,
        fun heq => congrArg comps heq⟩
    have hl₁mem : ∀ x ∈ l₁, x ∈ t.host := fun x hx => by simp [hl, hx]
    rw [hhost, hl]
    rw [hl] at hord
    refine (find?_moved hord hords hsame ⟨fun hnone x hx hxa => ?_, fun hnone x hx hxa => ?_⟩).symm
    · -- With no equal binding in front of it, it was the first, and so the only one.
      have hfirst : t.host.find? (fun x => decide (x.host = a.host)) = some a := by
        rw [hl, List.find?_append, List.find?_eq_none.2 fun y hy => by
          simpa using fun heq => hnone y hy ((hkeys y (hl₁mem y hy)).2 heq)]
        simp
      have hxt : x ∈ t.host := (hmem x).1 (by simp [hhost, hx])
      have hxeq := hshared hfirst x hxt ((hkeys x hxt).1 hxa)
      have hxoff : x ∈ offPlace a.guest t.host := by
        rw [← hoff]
        simp [hx]
      rw [hxeq, offPlace, List.mem_filter, decide_eq_true_eq] at hxoff
      exact hxoff.2 rfl
    · obtain ⟨y, hy, hya⟩ := hbehind ⟨x, by rw [← hsame]; simp [hx], hxa⟩
      exact hnone y hy hya

end WellFormed
end Bindings
/-- **`umount` undoes `mount`.**  A run of mounts on a place other than the root and as
many `umount` calls of it restore the GUEST lookup of every path that no copy of a
recursive bind lies on.  Without such copies the lists come back as they were if nothing
was bound on the place; if something was, every HOST lookup finds the same host path as
before, and the same binding unless the covered one was the first of several with its
host path. -/
theorem umountAll_mountAll {t : Bindings} (ht : t.Reachable) {guest : CStr}
    (hguest : IsCanonical guest) (hroot : guest ≠ ['/']) (mounts : List MountCall)
    (umounts : List UmountCall) (hlen : mounts.length = umounts.length)
    (hmounts : Run.AllSteps MountCall.step (MountCall.PutsOn guest) t mounts)
    (humounts : Run.AllSteps UmountCall.step (UmountCall.TakesOff guest)
      (mounts.foldl MountCall.step t) umounts) :
    (∀ path, (∀ cs, cs <+: comps path → cs ∉ copiedPlaces t mounts) →
      (umounts.foldl UmountCall.step (mounts.foldl MountCall.step t)).getBinding .guest path =
        t.getBinding .guest path) ∧
    (copiedPlaces t mounts = [] →
      (t.mounts (comps guest) = none →
        (umounts.foldl UmountCall.step (mounts.foldl MountCall.step t)).guest = t.guest ∧
        (umounts.foldl UmountCall.step (mounts.foldl MountCall.step t)).host = t.host) ∧
      ∀ a, t.mounts (comps guest) = some a → t.ReturnsInOrder a → ∀ path,
        ((umounts.foldl UmountCall.step (mounts.foldl MountCall.step t)).getBinding .host path).map
            (·.host) = (t.getBinding .host path).map (·.host) ∧
          (t.NotFirstShared a →
            (umounts.foldl UmountCall.step (mounts.foldl MountCall.step t)).getBinding .host path =
              t.getBinding .host path)) := by
  have h := ht.wellFormed
  have hplaces : ∀ cs, cs ∉ copiedPlaces t mounts →
      (mounts.foldl MountCall.step t).WellFormed →
      (umounts.foldl UmountCall.step (mounts.foldl MountCall.step t)).mounts cs = t.mounts cs := by
    intro cs hcs hwf
    obtain ⟨-, hother, hsame⟩ := h.mountAll hmounts hcs
    obtain ⟨-, hother', hsame'⟩ := hwf.umountAll h hguest hroot humounts
    by_cases heq : comps guest = cs
    · obtain ⟨new, hnew, hlayers⟩ := hsame heq
      rw [← heq] at hlayers ⊢
      exact Bindings.mounts_eq_of_layersAt (hsame' new (hnew.trans hlen) hlayers)
    · rw [hother' cs heq, hother heq]
  have hwf : (mounts.foldl MountCall.step t).WellFormed := by
    refine Run.invariant_foldl ?_ h hmounts
    intro t c hc ht
    obtain ⟨r, hreq, -, hr⟩ := hc
    rw [MountCall.step_eq hreq]
    exact ht.mount hr
  have hend := (hwf.umountAll h hguest hroot humounts).1
  constructor
  · intro path hfree
    by_cases hpath : IsAbsolute path
    · rw [hend.getBinding_guest_eq hpath, h.getBinding_guest_eq hpath]
      rw [deepest_congr fun cs hcs => hplaces cs (hfree cs hcs) hwf]
    · simp only [Bindings.getBinding, hpath, not_false_eq_true, if_true]
  · intro hcopied
    have hall : ∀ cs, (umounts.foldl UmountCall.step (mounts.foldl MountCall.step t)).mounts cs =
        t.mounts cs := fun cs => hplaces cs (by simp [hcopied]) hwf
    have hoff := h.offPlace_mountAll hmounts hcopied
    constructor
    · intro hnone
      have hoff' := hwf.offPlace_umountAll hguest hroot humounts
      have hself := h.offPlace_of_mounts_none hguest hnone
      have hself' := hend.offPlace_of_mounts_none hguest ((hall _).trans hnone)
      rw [← hself'.1, ← hself'.2, hoff'.1, hoff'.2, hoff.1, hoff.2]
      exact hself
    · intro a ha hreturns path
      obtain ⟨haguest, hag⟩ := (h.find_eq_of_mounts hguest).1 ha
      by_cases hpath : IsAbsolute path
      · obtain rfl | ⟨init, last, rfl⟩ := List.eq_nil_or_concat umounts
        · rw [List.length_nil, List.length_eq_zero_iff] at hlen
          subst hlen
          exact ⟨rfl, fun _ => rfl⟩
        · rw [List.concat_eq_append] at humounts hall hend ⊢
          rw [Run.allSteps_append, Run.allSteps_cons] at humounts
          obtain ⟨hinit, hlast, -⟩ := humounts
          have hwfi := (hwf.umountAll h hguest hroot hinit).1
          have hoffi := hwf.offPlace_umountAll hguest hroot hinit
          rw [List.foldl_append, List.foldl_cons, List.foldl_nil, UmountCall.step_eq hlast]
            at hall hend ⊢
          generalize init.foldl UmountCall.step (mounts.foldl MountCall.step t) = u
            at hwfi hoffi hall hend ⊢
          have hafter := (hall (comps guest)).trans ha
          have hne : u.mounts (comps guest) ≠ none := by
            intro hnone
            rw [hwfi.mounts_umount hguest hroot, if_pos rfl, hnone] at hafter
            simp at hafter
          obtain ⟨h₁, h₂, hhost, hrest, hplace, hbehind⟩ :=
            (hwfi.host_umount hguest hroot).2.2 a hafter hne
          refine h.getBinding_host_moved hend (h.perm.mem_iff.1 haguest) hhost ?_ hplace hbehind
            hreturns hpath
          rw [hrest, hoffi.2, hoff.2, hag]
      · have hnone : ∀ u : Bindings, u.getBinding .host path = none := by
          intro u
          simp only [Bindings.getBinding, hpath, not_false_eq_true, if_true]
        rw [hnone, hnone]
        exact ⟨rfl, fun _ => rfl⟩

/-- A guest root with a file system bound at `/n`. -/
def boundRoot : List Op := [.insortBinding3 (str "/r") (str "/"), .insortBinding3 (str "/y") (str "/n")]

/-- `mount("/s", "/n", NULL, MS_BIND, NULL)`. -/
def bindCall : MountCall := ⟨directoryWorld [], .init, str "/s", str "/n", [], msBind⟩

/-- `mount("tmpfs", target, "tmpfs", 0, NULL)`. -/
def tmpfsCall (target : CStr) : MountCall :=
  ⟨directoryWorld [], .init, str "tmpfs", target, str "tmpfs", 0⟩

theorem umountAll_mountAll_bindCall :
    ([⟨directoryWorld [], str "/n"⟩, ⟨directoryWorld [], str "/n/"⟩].foldl UmountCall.step
        ([bindCall, tmpfsCall (str "/n")].foldl MountCall.step
          (traceeAfter boundRoot).fs.bindings)).getBinding .guest (str "/n/f") =
      (traceeAfter boundRoot).fs.bindings.getBinding .guest (str "/n/f") ∧
    ([⟨directoryWorld [], str "/n"⟩, ⟨directoryWorld [], str "/n/"⟩].foldl UmountCall.step
        ([bindCall, tmpfsCall (str "/n")].foldl MountCall.step
          (traceeAfter boundRoot).fs.bindings)).getBinding .host (str "/y/f") =
      (traceeAfter boundRoot).fs.bindings.getBinding .host (str "/y/f") := by
  have hlaw := umountAll_mountAll (traceeAfter_reachable boundRoot (by decide))
    (by decide : IsCanonical (str "/n")) (by decide) [bindCall, tmpfsCall (str "/n")]
    [⟨directoryWorld [], str "/n"⟩, ⟨directoryWorld [], str "/n/"⟩] rfl (by decide +kernel)
    (by decide +kernel)
  have hcopied : copiedPlaces (traceeAfter boundRoot).fs.bindings [bindCall, tmpfsCall (str "/n")] =
      [] := by decide +kernel
  have hcovered : ((traceeAfter boundRoot).fs.bindings.mounts (comps (str "/n"))).any (fun a =>
      decide ((traceeAfter boundRoot).fs.bindings.ReturnsInOrder a ∧
        (traceeAfter boundRoot).fs.bindings.NotFirstShared a)) = true := by decide +kernel
  obtain ⟨a, ha, hgood⟩ := (Option.any_eq_true _ _).1 hcovered
  rw [decide_eq_true_eq] at hgood
  exact ⟨hlaw.1 _ fun cs _ => by simp [hcopied],
    ((hlaw.2 hcopied).2 a ha hgood.1 (str "/y/f")).2 hgood.2⟩

/-- The root of the guest is not unmounted. -/
theorem exists_umount_of_root :
    ¬ ∀ (t : Bindings) (c : MountCall) (u : UmountCall) (guest : CStr), t.Reachable →
      c.PutsOn guest t → u.TakesOff guest (c.step t) →
      ∀ path, (u.step (c.step t)).getBinding .guest path = t.getBinding .guest path := by
  intro hall
  have heq := hall (traceeAfter boundRoot).fs.bindings (tmpfsCall (str "/"))
    ⟨directoryWorld [], str "/"⟩ (str "/") (traceeAfter_reachable boundRoot (by decide))
    (by decide +kernel) (by decide +kernel) (str "/f")
  exact absurd heq (by decide +kernel)

end NeoProot
