import NeoProot.Path.Order
import NeoProot.Path.Canonical
import NeoProot.Lib.MountTable
import Mathlib.Data.List.Nodup
import Mathlib.Data.List.Perm.Basic
import Mathlib.Data.List.Flatten

/-!
# Well-formed binding tables

Every table the tracer builds from canonical paths is well formed: GUEST and HOST
hold the same bindings, no two of them have the same guest path, and an address
belongs to one binding or covered layer.  On such a table the GUEST lookup is the
lookup of a mount table: `getBinding_guest_eq` reads it off the partial function
`mounts`, whatever the order of the list.

## Main definitions

* `WellFormed` — the invariant, and `wellFormed_run`, that every run keeps it.
* `mounts` — the table as a partial function from components to bindings.
-/

namespace NeoProot
open MountTable

variable {l : List Binding} {it : Binding} {guest host : CStr}

/-- Both paths of a layer are canonical. -/
def Layer.Canonical (l : Layer) : Prop := IsCanonical l.host ∧ IsCanonical l.guest

namespace Binding

/-- A binding with canonical paths, over layers of the same guest path. -/
def Canonical (b : Binding) : Prop :=
  b.toLayer.Canonical ∧ ∀ l ∈ b.covered, l.Canonical ∧ l.guest = b.guest

/-- The addresses of a binding and of the layers below it. -/
def chain (b : Binding) : List ℕ := b.addr :: b.covered.map (·.addr)

variable {b c : Binding}

theorem Canonical.absolute (h : b.Canonical) : b.Absolute :=
  ⟨⟨h.1.1.1, h.1.2.1⟩, fun l hl => ⟨(h.2 l hl).1.1.1, (h.2 l hl).1.2.1⟩⟩

theorem Canonical.guest_eq (hb : b.Canonical) (hc : c.Canonical) (h : b.key .guest = c.key .guest) :
    b.guest = c.guest :=
  canonical_ext hb.1.2 hc.1.2 h

theorem coveredBinding_eq_some (h : b.coveredBinding = some c) :
    b.covered = c.toLayer :: c.covered := by
  simp only [coveredBinding] at h
  cases hcov : b.covered with
  | nil => simp [hcov] at h
  | cons l ls =>
    simp only [hcov, Option.some.injEq] at h
    subst h
    rfl

theorem Canonical.coveredBinding (h : b.Canonical) (hc : b.coveredBinding = some c) :
    c.Canonical ∧ c.guest = b.guest := by
  have hcov := coveredBinding_eq_some hc
  have hself := h.2 c.toLayer (by simp [hcov])
  refine ⟨⟨hself.1, fun m hm => ?_⟩, hself.2⟩
  have hm' := h.2 m (by simp [hcov, hm])
  exact ⟨hm'.1, hm'.2.trans hself.2.symm⟩

theorem chain_coveredBinding (hc : b.coveredBinding = some c) : b.chain = b.addr :: c.chain := by
  simp [chain, coveredBinding_eq_some hc]

@[simp] theorem chain_covering (b it : Binding) : (b.covering it).chain = b.addr :: it.chain := rfl

theorem Canonical.covering (hb : b.Canonical) (hc : c.Canonical) (h : c.guest = b.guest) :
    (b.covering c).Canonical := by
  refine ⟨hb.1, fun m hm => ?_⟩
  obtain rfl | hm := List.mem_cons.1 hm
  · exact ⟨hc.1, h⟩
  · exact ⟨(hc.2 m hm).1, (hc.2 m hm).2.trans h⟩

end Binding

namespace Bindings

/-- The addresses in use: those of the linked bindings and of what they cover. -/
def addrs (t : Bindings) : List ℕ := (t.guest ++ t.pending).flatMap Binding.chain

/-- The invariant of the binding tables. -/
structure WellFormed (t : Bindings) : Prop where
  canonical : ∀ side, ∀ b ∈ t.head side, b.Canonical
  perm : t.guest.Perm t.host
  unique : (t.guest.map fun b => b.guest).Nodup
  substitution : ∀ b ∈ t.guest, b.needSubstitution = decide (b.host ≠ b.guest)
  addrs : t.addrs.Nodup
  fresh : ∀ a ∈ t.addrs, a < t.fresh

/-- The binding an insertion into GUEST leaves on top. -/
def onTop (t : Bindings) (b : Binding) : Binding :=
  match t.guest.find? fun x => decide (x.guest = b.guest) with
  | none => b
  | some it => b.covering it

@[simp] theorem onTop_guest (t : Bindings) (b : Binding) : (t.onTop b).guest = b.guest := by
  simp only [onTop]
  split <;> rfl

@[simp] theorem onTop_host (t : Bindings) (b : Binding) : (t.onTop b).host = b.host := by
  simp only [onTop]
  split <;> rfl

@[simp] theorem onTop_addr (t : Bindings) (b : Binding) : (t.onTop b).addr = b.addr := by
  simp only [onTop]
  split <;> rfl

@[simp] theorem onTop_needSubstitution (t : Bindings) (b : Binding) :
    (t.onTop b).needSubstitution = b.needSubstitution := by
  simp only [onTop]
  split <;> rfl

/-- A list whose elements `f` tells apart, with one element brought to the front. -/
theorem perm_cons_filter {δ : Type*} [DecidableEq δ] {f : Binding → δ} (hnodup : (l.map f).Nodup)
    (hit : it ∈ l) : l.Perm (it :: l.filter fun x => decide (f x ≠ f it)) := by
  obtain ⟨l₁, l₂, rfl⟩ := List.append_of_mem hit
  rw [List.map_append, List.map_cons, List.nodup_middle, List.nodup_cons] at hnodup
  have hkeep : ∀ x ∈ l₁ ++ l₂, decide (f x ≠ f it) = true := fun x hx =>
    decide_eq_true fun hf => hnodup.1 (hf ▸ List.map_append ▸ List.mem_map_of_mem hx)
  have hfilter : (l₁ ++ it :: l₂).filter (fun x => decide (f x ≠ f it)) = l₁ ++ l₂ := by
    rw [List.filter_append, List.filter_cons,
      List.filter_eq_self.2 fun x hx => hkeep x (by simp [hx]),
      List.filter_eq_self.2 fun x hx => hkeep x (by simp [hx])]
    simp
  rw [hfilter]
  exact List.perm_middle

namespace WellFormed

variable {t : Bindings} {b x y : Binding}

theorem absolute (h : t.WellFormed) : t.Absolute :=
  fun side b hb => (h.canonical side b hb).absolute

theorem eq_of_guest (h : t.WellFormed) (hx : x ∈ t.guest) (hy : y ∈ t.guest)
    (heq : x.guest = y.guest) : x = y :=
  List.inj_on_of_nodup_map h.unique hx hy heq

theorem addr_mem (hx : x ∈ t.guest ++ t.pending) : x.addr ∈ t.addrs :=
  List.mem_flatMap.2 ⟨x, hx, by simp [Binding.chain]⟩

private theorem map_addr_sublist (l : List Binding) :
    (l.map fun b => b.addr).Sublist (l.flatMap Binding.chain) := by
  induction l with
  | nil => simp
  | cons b l ih =>
    simp only [List.map_cons, List.flatMap_cons, Binding.chain, List.cons_append]
    exact (ih.trans (List.sublist_append_right _ _)).cons_cons _

theorem eq_of_addr (h : t.WellFormed) (hx : x ∈ t.guest ++ t.pending)
    (hy : y ∈ t.guest ++ t.pending) (heq : x.addr = y.addr) : x = y :=
  List.inj_on_of_nodup_map (h.addrs.sublist (map_addr_sublist _)) hx hy heq

theorem not_mem_pending (h : t.WellFormed) (hx : x ∈ t.guest) (hy : y ∈ t.pending) :
    x.addr ≠ y.addr := by
  have hnodup := h.addrs.sublist (map_addr_sublist _)
  rw [List.map_append, List.nodup_append] at hnodup
  exact hnodup.2.2 _ (List.mem_map_of_mem hx) _ (List.mem_map_of_mem hy)

/-- Taking the duplicate of a guest path out by its address takes it out by its
path. -/
theorem filter_addr_eq (h : t.WellFormed) (hit : it ∈ t.guest) (hl : ∀ x ∈ l, x ∈ t.guest) :
    l.filter (fun x => decide (x.addr ≠ it.addr)) =
      l.filter (fun x => decide (x.guest ≠ it.guest)) := by
  refine List.filter_congr fun x hx => ?_
  have hx' := hl x hx
  by_cases heq : x = it
  · simp [heq]
  · have haddr : x.addr ≠ it.addr := fun ha => heq (h.eq_of_addr (by simp [hx']) (by simp [hit]) ha)
    have hguest : x.guest ≠ it.guest := fun hg => heq (h.eq_of_guest hx' hit hg)
    simp [haddr, hguest]

theorem filter_pending (h : t.WellFormed) (hit : it ∈ t.guest) :
    t.pending.filter (fun x => decide (x.addr ≠ it.addr)) = t.pending := by
  refine List.filter_eq_self.2 fun x hx => ?_
  have hne := h.not_mem_pending hit hx
  simpa using Ne.symm hne

theorem find_guest (h : t.WellFormed) (hit : it ∈ t.guest) :
    t.guest.find? (fun x => decide (x.guest = it.guest)) = some it := by
  cases hfind : t.guest.find? fun x => decide (x.guest = it.guest) with
  | none =>
    have hnot := List.find?_eq_none.1 hfind it hit
    simp at hnot
  | some x =>
    have hx := List.find?_some hfind
    rw [decide_eq_true_eq] at hx
    exact congrArg some (h.eq_of_guest (List.mem_of_find?_eq_some hfind) hit hx)

/-- The insertion into GUEST of a binding with new addresses. -/
theorem insortBinding_guest (h : t.WellFormed) (hb : b.Canonical) (hdisj : b.addr ∉ t.addrs) :
    ∃ l₁ l₂, t.guest.filter (fun x => decide (x.guest ≠ b.guest)) = l₁ ++ l₂ ∧
      t.insortBinding .guest b =
        ({ t with
            guest := l₁ ++ t.onTop b :: l₂
            host := t.host.filter fun x => decide (x.guest ≠ b.guest) }, t.onTop b) := by
  have habs := h.absolute
  obtain ⟨l₁, it, l₂, -, hl, hkey, -, hres⟩ | ⟨l₁, l₂, hl, hne, -, hres⟩ :=
    insortBinding_spec t .guest b hb.1.2.1 (habs.refs .guest .guest)
  · -- The duplicate is the only binding of this guest path and of its address.
    change t.guest = _ at hl
    have hit : it ∈ t.guest := by simp [hl]
    have hguest : it.guest = b.guest := (h.canonical .guest it hit).guest_eq hb hkey
    have htop : t.onTop b = b.covering it := by
      simp only [onTop]
      rw [← hguest, h.find_guest hit]
    have haddr : b.addr ≠ it.addr := fun ha => hdisj (ha ▸ addr_mem (by simp [hit]))
    have hrest : ∀ x ∈ l₁ ++ l₂, x ∈ t.guest ∧ x ≠ it := by
      intro x hx
      have hnodup := List.Nodup.of_map _ h.unique
      rw [hl, List.nodup_middle, List.nodup_cons] at hnodup
      refine ⟨?_, fun heq => hnodup.1 (heq ▸ hx)⟩
      rw [hl]
      simp only [List.mem_append, List.mem_cons] at hx ⊢
      tauto
    have hkeep : ∀ x ∈ l₁ ++ l₂, x.addr ≠ it.addr := fun x hx ha =>
      (hrest x hx).2 (h.eq_of_addr (by simp [(hrest x hx).1]) (by simp [hit]) ha)
    have hkeep' : ∀ x ∈ l₁ ++ l₂, x.guest ≠ b.guest := fun x hx hg =>
      (hrest x hx).2 (h.eq_of_guest (hrest x hx).1 hit (hg.trans hguest.symm))
    refine ⟨l₁, l₂, ?_, ?_⟩
    · have h1 : ∀ x ∈ l₁, decide (x.guest ≠ b.guest) = true :=
        fun x hx => decide_eq_true (hkeep' x (by simp [hx]))
      have h2 : ∀ x ∈ l₂, decide (x.guest ≠ b.guest) = true :=
        fun x hx => decide_eq_true (hkeep' x (by simp [hx]))
      rw [hl, List.filter_append, List.filter_cons, List.filter_eq_self.2 h1,
        List.filter_eq_self.2 h2]
      simp [hguest]
    · have h1 : ∀ x ∈ l₁, decide (x.addr ≠ it.addr) = true :=
        fun x hx => decide_eq_true (hkeep x (by simp [hx]))
      have h2 : ∀ x ∈ l₂, decide (x.addr ≠ it.addr) = true :=
        fun x hx => decide_eq_true (hkeep x (by simp [hx]))
      have hhost := h.filter_addr_eq hit (l := t.host) fun x hx => h.perm.mem_iff.2 hx
      rw [hres, htop]
      simp only [removeBindingFromAllLists, setHead, Prod.mk.injEq, and_true]
      rw [h.filter_pending hit, hhost, hguest, List.filter_append, List.filter_cons,
        List.filter_cons, List.filter_eq_self.2 h1, List.filter_eq_self.2 h2]
      have htrue : decide ((b.covering it).addr ≠ it.addr) = true := decide_eq_true haddr
      rw [htrue]
      simp
  · have hnone : ∀ x ∈ t.guest, x.guest ≠ b.guest := by
      intro x hx hg
      refine hne (by simp) x hx ?_
      change comps x.guest = comps b.guest
      rw [hg]
    have htop : t.onTop b = b := by
      have hfind : t.guest.find? (fun x => decide (x.guest = b.guest)) = none :=
        List.find?_eq_none.2 fun x hx => by simpa using hnone x hx
      simp only [onTop, hfind]
    refine ⟨l₁, l₂, ?_, ?_⟩
    · rw [List.filter_eq_self.2 fun x hx => decide_eq_true (hnone x hx)]
      exact hl
    · have hhost : t.host.filter (fun x => decide (x.guest ≠ b.guest)) = t.host :=
        List.filter_eq_self.2 fun x hx => decide_eq_true (hnone x (h.perm.mem_iff.2 hx))
      rw [hres, htop, hhost]
      rfl

/-- **What `insort_binding2` does to a well-formed table.**  In both lists the
binding takes the place of the one with its guest path. -/
theorem insortBinding2_eq (h : t.WellFormed) (hb : b.Canonical) (hdisj : b.addr ∉ t.addrs) :
    ∃ g₁ g₂ h₁ h₂, t.guest.filter (fun x => decide (x.guest ≠ b.guest)) = g₁ ++ g₂ ∧
      t.host.filter (fun x => decide (x.guest ≠ b.guest)) = h₁ ++ h₂ ∧
      Place (Binding.key .host) (b.key .host) h₁ h₂ ∧
      t.insortBinding2 b =
        ({ t with
            guest := g₁ ++ t.onTop b.withSubstitution :: g₂
            host := h₁ ++ t.onTop b.withSubstitution :: h₂ }, t.onTop b.withSubstitution) := by
  obtain ⟨g₁, g₂, hg, hres⟩ := h.insortBinding_guest (b := b.withSubstitution) hb hdisj
  have hbabs : IsAbsolute ((t.onTop b.withSubstitution).ref .host) := by
    change IsAbsolute (t.onTop b.withSubstitution).host
    rw [onTop_host]
    exact hb.1.1.1
  have hkey : (t.onTop b.withSubstitution).key .host = b.key .host := by
    change comps (t.onTop b.withSubstitution).host = comps b.host
    rw [onTop_host]
    rfl
  have hhost : ∀ x ∈ t.host.filter (fun x => decide (x.guest ≠ b.guest)), IsAbsolute (x.ref .host) :=
    fun x hx => h.absolute.refs .host .host x (List.mem_of_mem_filter hx)
  have hspec := insortBinding_spec
    { t with
      guest := g₁ ++ t.onTop b.withSubstitution :: g₂
      host := t.host.filter fun x => decide (x.guest ≠ b.guest) }
    .host (t.onTop b.withSubstitution) hbabs hhost
  obtain ⟨l₁, it, l₂, hside, -⟩ | ⟨h₁, h₂, hl, -, hplace, hres'⟩ := hspec
  · exact absurd rfl hside
  · refine ⟨g₁, g₂, h₁, h₂, hg, hl, hkey ▸ hplace, ?_⟩
    simp only [insortBinding2, hres]
    exact hres'

/-- Where there is no binding of a guest path, nothing is on top of anything. -/
theorem onTop_cases (t : Bindings) (b : Binding) :
    ((∀ x ∈ t.guest, x.guest ≠ b.guest) ∧ t.onTop b = b) ∨
      ∃ it ∈ t.guest, it.guest = b.guest ∧ t.onTop b = b.covering it := by
  simp only [onTop]
  cases hfind : t.guest.find? fun x => decide (x.guest = b.guest) with
  | none => exact .inl ⟨fun x hx => by simpa using List.find?_eq_none.1 hfind x hx, rfl⟩
  | some it =>
    have hit := List.find?_some hfind
    rw [decide_eq_true_eq] at hit
    exact .inr ⟨it, List.mem_of_find?_eq_some hfind, hit, rfl⟩

private theorem addrs_perm (h : t.WellFormed) (b : Binding) {g₁ g₂ : List Binding}
    (hg : t.guest.filter (fun x => decide (x.guest ≠ b.guest)) = g₁ ++ g₂) :
    ∃ top, (top = b.chain ∨ top = [b.addr]) ∧
      ((g₁ ++ t.onTop b :: g₂ ++ t.pending).flatMap Binding.chain).Perm (top ++ t.addrs) := by
  have hmid : ∀ x, ((g₁ ++ x :: g₂ ++ t.pending).flatMap Binding.chain).Perm
      (x.chain ++ ((g₁ ++ g₂) ++ t.pending).flatMap Binding.chain) := by
    intro x
    have hp : (g₁ ++ x :: g₂ ++ t.pending).Perm (x :: ((g₁ ++ g₂) ++ t.pending)) :=
      List.perm_middle.append_right _
    exact hp.flatMap_right _
  obtain ⟨hnone, htop⟩ | ⟨it, hit, hitg, htop⟩ := onTop_cases t b
  · have hself : t.guest = g₁ ++ g₂ := by
      rw [← hg, List.filter_eq_self.2 fun x hx => decide_eq_true (hnone x hx)]
    refine ⟨b.chain, .inl rfl, ?_⟩
    rw [htop, Bindings.addrs, hself]
    exact hmid b
  · have hperm := (perm_cons_filter h.unique hit).append_right t.pending
    rw [hitg, hg] at hperm
    refine ⟨[b.addr], .inr rfl, ?_⟩
    rw [htop]
    refine (hmid _).trans ?_
    rw [Binding.chain_covering]
    refine List.Perm.cons _ ?_
    exact (hperm.flatMap_right Binding.chain).symm

theorem insortBinding2 (h : t.WellFormed) (hb : b.Canonical)
    (hdisj : ∀ a ∈ b.chain, a ∉ t.addrs) (hnodup : b.chain.Nodup)
    (hfresh : ∀ a ∈ b.chain, a < t.fresh) : (t.insortBinding2 b).1.WellFormed := by
  have haddr : b.addr ∈ b.chain := by simp [Binding.chain]
  obtain ⟨g₁, g₂, h₁, h₂, hg, hh, -, hres⟩ := h.insortBinding2_eq hb (hdisj _ haddr)
  rw [hres]
  have htopc : (t.onTop b.withSubstitution).Canonical := by
    obtain ⟨-, htop⟩ | ⟨it, hit, hitg, htop⟩ := onTop_cases t b.withSubstitution
    · rw [htop]
      exact hb
    · rw [htop]
      exact Binding.Canonical.covering hb (h.canonical .guest it hit) hitg
  have hgmem : ∀ x ∈ g₁ ++ g₂, x ∈ t.guest ∧ x.guest ≠ b.guest := by
    intro x hx
    rw [← hg, List.mem_filter, decide_eq_true_eq] at hx
    exact hx
  have hhmem : ∀ x ∈ h₁ ++ h₂, x ∈ t.host := by
    intro x hx
    rw [← hh] at hx
    exact List.mem_of_mem_filter hx
  obtain ⟨top, htop, hperm⟩ := h.addrs_perm b.withSubstitution hg
  have htopsub : ∀ a ∈ top, a ∈ b.chain := by
    intro a ha
    obtain rfl | rfl := htop
    · exact ha
    · rw [List.mem_singleton.1 ha]
      exact haddr
  constructor
  · intro side x hx
    cases side with
    | pending => exact h.canonical .pending x hx
    | guest =>
      change x ∈ g₁ ++ _ :: g₂ at hx
      rw [List.mem_append, List.mem_cons] at hx
      obtain hx | rfl | hx := hx
      · exact h.canonical .guest x (hgmem x (by simp [hx])).1
      · exact htopc
      · exact h.canonical .guest x (hgmem x (by simp [hx])).1
    | host =>
      change x ∈ h₁ ++ _ :: h₂ at hx
      rw [List.mem_append, List.mem_cons] at hx
      obtain hx | rfl | hx := hx
      · exact h.canonical .host x (hhmem x (by simp [hx]))
      · exact htopc
      · exact h.canonical .host x (hhmem x (by simp [hx]))
  · refine List.perm_middle.trans ((List.Perm.cons _ ?_).trans List.perm_middle.symm)
    rw [← hg, ← hh]
    exact h.perm.filter _
  · change ((g₁ ++ t.onTop b.withSubstitution :: g₂).map fun x => x.guest).Nodup
    rw [(List.perm_middle.map _).nodup_iff, List.map_cons, List.nodup_cons, onTop_guest, ← hg]
    refine ⟨?_, h.unique.sublist (List.filter_sublist.map _)⟩
    intro hmem
    obtain ⟨x, hx, hxg⟩ := List.mem_map.1 hmem
    rw [hg] at hx
    exact (hgmem x hx).2 hxg
  · intro x hx
    change x ∈ g₁ ++ _ :: g₂ at hx
    rw [List.mem_append, List.mem_cons] at hx
    obtain hx | rfl | hx := hx
    · exact h.substitution x (hgmem x (by simp [hx])).1
    · rw [onTop_needSubstitution, onTop_host, onTop_guest]
      have hcmp : comparePaths b.host b.guest = .pathsAreEqual ↔ b.host = b.guest := by
        rw [comparePaths, comparePaths2_eq_equal_iff hb.1.1.1 hb.1.2.1]
        exact ⟨canonical_ext hb.1.1 hb.1.2, congrArg _⟩
      simp only [Binding.withSubstitution, ne_eq, hcmp]
    · exact h.substitution x (hgmem x (by simp [hx])).1
  · change ((g₁ ++ _ :: g₂ ++ t.pending).flatMap Binding.chain).Nodup
    rw [hperm.nodup_iff, List.nodup_append]
    refine ⟨?_, h.addrs, fun a ha a' ha' heq => ?_⟩
    · obtain rfl | rfl := htop
      · exact hnodup
      · simp
    · exact hdisj a (htopsub a ha) (heq ▸ ha')
  · intro a ha
    change a ∈ (g₁ ++ _ :: g₂ ++ t.pending).flatMap Binding.chain at ha
    rw [hperm.mem_iff, List.mem_append] at ha
    obtain ha | ha := ha
    · exact hfresh a (htopsub a ha)
    · exact h.fresh a ha

theorem removeBindingFromAllLists (h : t.WellFormed) (addr : ℕ) :
    (t.removeBindingFromAllLists addr).WellFormed := by
  have hsub : (t.removeBindingFromAllLists addr).addrs.Sublist t.addrs :=
    (List.filter_sublist.append List.filter_sublist).flatMap Binding.chain
  constructor
  · intro side x hx
    rw [head_removeBindingFromAllLists] at hx
    exact h.canonical side x (List.mem_of_mem_filter hx)
  · exact h.perm.filter _
  · exact h.unique.sublist (List.filter_sublist.map _)
  · exact fun x hx => h.substitution x (List.mem_of_mem_filter hx)
  · exact h.addrs.sublist hsub
  · exact fun a ha => h.fresh a (hsub.subset ha)

/-- A linked binding brings its addresses with it when it leaves the lists. -/
theorem addrs_remove (h : t.WellFormed) (hb : b ∈ t.guest ++ t.pending) :
    t.addrs.Perm (b.chain ++ (t.removeBindingFromAllLists b.addr).addrs) := by
  have hperm := perm_cons_filter (h.addrs.sublist (map_addr_sublist _)) hb
  rw [List.filter_append] at hperm
  exact hperm.flatMap_right Binding.chain

/-- What a binding covers has addresses of its own. -/
theorem covered_apart (h : t.WellFormed) (hb : b ∈ t.guest ++ t.pending)
    (hc : b.coveredBinding = some c) :
    (∀ a ∈ c.chain, a ∉ (t.removeBindingFromAllLists b.addr).addrs) ∧ c.chain.Nodup ∧
      ∀ a ∈ c.chain, a < t.fresh := by
  have hperm := h.addrs_remove hb
  have hnodup := hperm.nodup_iff.1 h.addrs
  rw [Binding.chain_coveredBinding hc, List.cons_append, List.nodup_cons, List.nodup_append]
    at hnodup
  refine ⟨fun a ha ha' => hnodup.2.2.2 a ha a ha' rfl, hnodup.2.1, fun a ha => h.fresh a ?_⟩
  rw [hperm.mem_iff, Binding.chain_coveredBinding hc]
  simp [ha]

theorem removeBindingAndRestoreCovered (h : t.WellFormed) (hb : b ∈ t.guest ++ t.pending) :
    (t.removeBindingAndRestoreCovered b).WellFormed := by
  have hrem := h.removeBindingFromAllLists b.addr
  simp only [Bindings.removeBindingAndRestoreCovered]
  cases hc : b.coveredBinding with
  | none => exact hrem
  | some c =>
    have hbc : b.Canonical := by
      obtain hb | hb := List.mem_append.1 hb
      · exact h.canonical .guest b hb
      · exact h.canonical .pending b hb
    obtain ⟨hdisj, hnodup, hfresh⟩ := h.covered_apart hb hc
    exact hrem.insortBinding2 (hbc.coveredBinding hc).1 hdisj hnodup hfresh

theorem allocate (h : t.WellFormed) : WellFormed { t with fresh := t.fresh + 1 } where
  canonical := by
    intro side
    cases side
    · exact h.canonical .guest
    · exact h.canonical .host
    · exact h.canonical .pending
  perm := h.perm
  unique := h.unique
  substitution := h.substitution
  addrs := h.addrs
  fresh := fun a ha => Nat.lt_succ_of_lt (h.fresh a ha)

theorem newLayer_chain (t : Bindings) (host guest : CStr) (mountKind : BindingMountKind) :
    (t.newLayer host guest mountKind).chain = [t.fresh] := rfl

theorem fresh_not_mem (h : t.WellFormed) : t.fresh ∉ t.addrs := fun hmem =>
  absurd (h.fresh _ hmem) (by omega)

theorem newLayer_canonical {mountKind : BindingMountKind}
    (hp : IsCanonical host ∧ IsCanonical guest) : (t.newLayer host guest mountKind).Canonical :=
  ⟨hp, by simp [newLayer]⟩

theorem insortBinding4 (h : t.WellFormed) (hp : IsCanonical host ∧ IsCanonical guest)
    (mountKind : BindingMountKind) : (t.insortBinding4 host guest mountKind).1.WellFormed := by
  refine h.allocate.insortBinding2 (newLayer_canonical hp) ?_ ?_ ?_
  · intro a ha
    rw [newLayer_chain, List.mem_singleton] at ha
    exact ha ▸ h.fresh_not_mem
  · rw [newLayer_chain]
    exact List.nodup_singleton _
  · intro a ha
    rw [newLayer_chain, List.mem_singleton] at ha
    change a < t.fresh + 1
    omega

theorem newBinding (h : t.WellFormed) (hp : IsCanonical host ∧ IsCanonical guest) :
    (t.newBinding host guest).1.WellFormed := by
  let b := t.newLayer host guest .none
  have hb : b.Canonical := newLayer_canonical hp
  have ht := h.allocate
  -- The list that PENDING becomes, and the address it adds.
  have hkey : ∀ l, (∀ x ∈ l, x.Canonical) →
      ((t.guest ++ l).flatMap Binding.chain).Perm (t.fresh :: t.addrs) →
      WellFormed { t with pending := l, fresh := t.fresh + 1 } := by
    intro l hl hperm
    refine ⟨?_, h.perm, h.unique, h.substitution, ?_, ?_⟩
    · intro side
      cases side
      · exact h.canonical .guest
      · exact h.canonical .host
      · exact hl
    · change ((t.guest ++ l).flatMap Binding.chain).Nodup
      rw [hperm.nodup_iff, List.nodup_cons]
      exact ⟨h.fresh_not_mem, h.addrs⟩
    · intro a ha
      change a ∈ (t.guest ++ l).flatMap Binding.chain at ha
      rw [hperm.mem_iff, List.mem_cons] at ha
      obtain rfl | ha := ha
      · exact Nat.lt_succ_self _
      · exact Nat.lt_succ_of_lt (h.fresh a ha)
  obtain ⟨l₁, it, l₂, -, hl, hkeyit, -, hres⟩ | ⟨l₁, l₂, hl, -, -, hres⟩ :=
    insortBinding_spec { t with fresh := t.fresh + 1 } .pending b hb.absolute.1.2
      (ht.absolute.refs .pending .pending)
  · change t.pending = _ at hl
    have hit : it ∈ t.guest ++ t.pending := by simp [hl]
    have hitc := h.canonical .pending it (by change it ∈ t.pending; simp [hl])
    have hitaddr : it.addr < t.fresh := h.fresh _ (addr_mem hit)
    have hpend : ∀ x ∈ l₁ ++ l₂, x.addr ≠ it.addr := by
      have hnodup := (h.addrs.sublist (map_addr_sublist _)).sublist
        ((List.sublist_append_right t.guest t.pending).map _)
      rw [hl, List.map_append, List.map_cons, List.nodup_middle, List.nodup_cons] at hnodup
      exact fun x hx ha => hnodup.1 (ha ▸ List.map_append ▸ List.mem_map_of_mem hx)
    have hguest : ∀ x ∈ t.guest, decide (x.addr ≠ it.addr) = true := fun x hx =>
      decide_eq_true (h.not_mem_pending hx (by simp [hl]))
    have hself : (t.newBinding host guest).1 =
        { t with pending := l₁ ++ b.covering it :: l₂, fresh := t.fresh + 1 } := by
      simp only [Bindings.newBinding]
      rw [hres]
      simp only [Bindings.removeBindingFromAllLists, setHead]
      rw [List.filter_eq_self.2 hguest,
        List.filter_eq_self.2 fun x hx => hguest x (h.perm.mem_iff.2 hx), List.filter_append,
        List.filter_cons, List.filter_cons,
        List.filter_eq_self.2 fun x hx => decide_eq_true (hpend x (by simp [hx])),
        List.filter_eq_self.2 fun x hx => decide_eq_true (hpend x (by simp [hx]))]
      have htrue : decide ((b.covering it).addr ≠ it.addr) = true := by
        change decide (t.fresh ≠ it.addr) = true
        exact decide_eq_true (by omega)
      rw [htrue]
      simp
    rw [hself]
    refine hkey _ ?_ ?_
    · intro x hx
      rw [List.mem_append, List.mem_cons] at hx
      obtain hx | rfl | hx := hx
      · exact h.canonical .pending x (by change x ∈ t.pending; simp [hl, hx])
      · exact Binding.Canonical.covering hb hitc (hitc.guest_eq hb hkeyit)
      · exact h.canonical .pending x (by change x ∈ t.pending; simp [hl, hx])
    · have hmid : (t.guest ++ (l₁ ++ b.covering it :: l₂)).Perm
          (b.covering it :: (t.guest ++ (l₁ ++ l₂))) := by
        rw [← List.append_assoc, ← List.append_assoc]
        exact List.perm_middle
      have hold : (t.guest ++ t.pending).Perm (it :: (t.guest ++ (l₁ ++ l₂))) := by
        rw [hl, ← List.append_assoc, ← List.append_assoc]
        exact List.perm_middle
      refine (hmid.flatMap_right Binding.chain).trans ?_
      rw [List.flatMap_cons, Binding.chain_covering]
      exact List.Perm.cons _ (hold.flatMap_right Binding.chain).symm
  · change t.pending = _ at hl
    have hself : (t.newBinding host guest).1 =
        { t with pending := l₁ ++ b :: l₂, fresh := t.fresh + 1 } := by
      simp only [Bindings.newBinding]
      rw [hres]
      rfl
    rw [hself]
    refine hkey _ ?_ ?_
    · intro x hx
      rw [List.mem_append, List.mem_cons] at hx
      obtain hx | rfl | hx := hx
      · exact h.canonical .pending x (by change x ∈ t.pending; simp [hl, hx])
      · exact hb
      · exact h.canonical .pending x (by change x ∈ t.pending; simp [hl, hx])
    · have hmid : (t.guest ++ (l₁ ++ b :: l₂)).Perm (b :: (t.guest ++ (l₁ ++ l₂))) := by
        rw [← List.append_assoc, ← List.append_assoc]
        exact List.perm_middle
      refine (hmid.flatMap_right Binding.chain).trans ?_
      rw [Bindings.addrs, hl, List.flatMap_cons]
      exact List.Perm.refl _

theorem setAttributes (h : t.WellFormed) (addr : ℕ) (r sr : Bool) (mf smf : UInt64) :
    (t.update addr (·.setAttributes r sr mf smf)).WellFormed := by
  let f : Binding → Binding := fun b => if b.addr = addr then b.setAttributes r sr mf smf else b
  have hf : ∀ x : Binding, (f x).guest = x.guest ∧ (f x).host = x.host ∧
      (f x).covered = x.covered ∧ (f x).addr = x.addr ∧
      (f x).needSubstitution = x.needSubstitution := by
    intro x
    simp only [f]
    split
    · exact ⟨rfl, rfl, rfl, rfl, rfl⟩
    · exact ⟨rfl, rfl, rfl, rfl, rfl⟩
  have hguest : (t.update addr (·.setAttributes r sr mf smf)).guest = t.guest.map f := rfl
  have haddrs : (t.update addr (·.setAttributes r sr mf smf)).addrs = t.addrs := by
    change (t.guest.map f ++ t.pending.map f).flatMap Binding.chain = _
    rw [← List.map_append, List.flatMap_map]
    have hchain : (fun x => (f x).chain) = Binding.chain := by
      funext x
      simp only [Binding.chain, hf]
    rw [hchain]
    rfl
  constructor
  · intro side x hx
    rw [head_update, List.mem_map] at hx
    obtain ⟨y, hy, rfl⟩ := hx
    have hyc := h.canonical side y hy
    change (f y).Canonical
    simp only [Binding.Canonical, Layer.Canonical, hf]
    exact hyc
  · exact h.perm.map f
  · rw [hguest, List.map_map]
    have hcomp : ((fun b => b.guest) ∘ f) = fun b : Binding => b.guest := by
      funext x
      exact (hf x).1
    rw [hcomp]
    exact h.unique
  · intro x hx
    rw [hguest, List.mem_map] at hx
    obtain ⟨y, hy, rfl⟩ := hx
    rw [(hf y).1, (hf y).2.1, (hf y).2.2.2.2]
    exact h.substitution y hy
  · rw [haddrs]
    exact h.addrs
  · intro a ha
    rw [haddrs] at ha
    exact h.fresh a ha

end WellFormed

theorem empty_wellFormed : empty.WellFormed where
  canonical := by
    intro side b hb
    cases side <;> simp [empty, head] at hb
  perm := List.Perm.refl _
  unique := List.nodup_nil
  substitution := by simp [empty]
  addrs := by simp [empty, addrs]
  fresh := by simp [empty, addrs]

end Bindings

/-- The paths an operation inserts are canonical. -/
def Op.Canonical : Op → Prop
  | .newBinding host guest => IsCanonical host ∧ IsCanonical guest
  | .insortBinding3 host guest => IsCanonical host ∧ IsCanonical guest
  | .insortBinding4 host guest _ => IsCanonical host ∧ IsCanonical guest
  | .removeBindingFromAllLists _ => True
  | .removeBindingAndRestoreCovered _ => True
  | .setAttributes _ _ _ _ _ => True

instance : DecidablePred Op.Canonical
  | .newBinding _ _ | .insortBinding3 _ _ | .insortBinding4 _ _ _ =>
    inferInstanceAs (Decidable (_ ∧ _))
  | .removeBindingFromAllLists _ | .removeBindingAndRestoreCovered _
  | .setAttributes _ _ _ _ _ => inferInstanceAs (Decidable True)

namespace Bindings

theorem linked_mem {t : Bindings} (h : t.WellFormed) {addr : ℕ} {b : Binding}
    (hb : t.linked addr = some b) : b ∈ t.guest ++ t.pending := by
  have hmem := List.mem_of_find?_eq_some hb
  simp only [List.mem_append, ← h.perm.mem_iff] at hmem ⊢
  tauto

/-- One operation keeps a table well formed. -/
theorem step_wellFormed (t : Bindings) (op : Op) (hop : op.Canonical) (h : t.WellFormed) :
    (t.step op).WellFormed := by
  cases op with
  | newBinding host guest => exact h.newBinding hop
  | insortBinding3 host guest => exact h.insortBinding4 hop .none
  | insortBinding4 host guest mountKind => exact h.insortBinding4 hop mountKind
  | removeBindingFromAllLists addr => exact h.removeBindingFromAllLists addr
  | removeBindingAndRestoreCovered addr =>
    simp only [step]
    cases hb : t.linked addr with
    | none => exact h
    | some b => exact h.removeBindingAndRestoreCovered (linked_mem h hb)
  | setAttributes addr readonly sourceReadonly mountFlags sourceMountFlags =>
    exact h.setAttributes addr readonly sourceReadonly mountFlags sourceMountFlags

/-- The tables that runs of canonical operations lead to. -/
def Reachable (t : Bindings) : Prop :=
  ∃ ops : List Op, (∀ op ∈ ops, op.Canonical) ∧ t ∈ Run.states step empty ops

/-- **Every reachable table is well formed.** -/
theorem Reachable.wellFormed {t : Bindings} (h : t.Reachable) : t.WellFormed := by
  obtain ⟨ops, hops, ht⟩ := h
  exact Run.invariant step_wellFormed empty_wellFormed hops t ht

/-- The live bindings as a mount table: what is bound on a guest path. -/
def mounts (t : Bindings) (cs : List CStr) : Option Binding :=
  t.guest.find? fun b => decide (comps b.guest = cs)

theorem perm_cacheEntries (t : Bindings) : t.cacheEntries.Perm t.guest :=
  List.perm_insertionSort _ _

theorem cacheEntries_sorted (t : Bindings) :
    t.cacheEntries.Pairwise fun a b => b.guest.length ≤ a.guest.length := by
  have : Std.Total fun a b : Binding => b.guest.length ≤ a.guest.length :=
    ⟨fun a b => Nat.le_total _ _⟩
  have : IsTrans Binding fun a b => b.guest.length ≤ a.guest.length :=
    ⟨fun a b c hab hbc => Nat.le_trans hbc hab⟩
  exact List.pairwise_insertionSort _ _

/-- In a list sorted by length the first match is the longest. -/
theorem find_sorted {es : List Binding} (hperm : es.Perm l)
    (hsorted : es.Pairwise fun a b => b.guest.length ≤ a.guest.length)
    (hcan : ∀ b ∈ l, IsCanonical b.guest) {path : CStr} (hpath : IsAbsolute path) {b : Binding}
    (hb : es.find? (matchesPrefix path) = some b) :
    b ∈ l ∧ comps b.guest <+: comps path ∧
      ∀ x ∈ l, comps x.guest <+: comps path → comps x.guest <+: comps b.guest := by
  have hmatch : ∀ x ∈ l, (matchesPrefix path x = true ↔ comps x.guest <+: comps path) :=
    fun x hx => matchesPrefix_iff hpath (hcan x hx)
  have hbl : b ∈ l := hperm.mem_iff.1 (List.mem_of_find?_eq_some hb)
  have hbp := (hmatch b hbl).1 (List.find?_some hb)
  refine ⟨hbl, hbp, fun x hx hxp => ?_⟩
  obtain hle | hle := List.prefix_or_prefix_of_prefix hxp hbp
  · exact hle
  · by_cases heq : comps b.guest = comps x.guest
    · exact heq ▸ List.prefix_rfl
    · -- A deeper binding has a longer path and stands in front of `b`.
      have hlen : b.guest.length < x.guest.length := by
        have hlt := render_length_lt (comps_names (hcan x hx)) ⟨hle, heq⟩
        rwa [render_comps (hcan b hbl), render_comps (hcan x hx)] at hlt
      obtain ⟨-, l₁, l₂, hsplit, hfront⟩ := List.find?_eq_some_iff_append.1 hb
      have hxm := (hmatch x hx).2 hxp
      have hmem := hperm.mem_iff.2 hx
      rw [hsplit] at hmem hsorted
      obtain hmem | hmem := List.mem_append.1 hmem
      · have hfx := hfront x hmem
        simp [hxm] at hfx
      · obtain rfl | hmem := List.mem_cons.1 hmem
        · exact absurd rfl heq
        · have hshort := (List.pairwise_cons.1 (List.pairwise_append.1 hsorted).2.1).1 x hmem
          omega

namespace WellFormed

variable {t : Bindings} {b : Binding} {cs : List CStr} {path : CStr}

theorem mounts_eq_some_iff (h : t.WellFormed) :
    t.mounts cs = some b ↔ b ∈ t.guest ∧ comps b.guest = cs := by
  constructor
  · intro hb
    exact ⟨List.mem_of_find?_eq_some hb, by simpa using List.find?_some hb⟩
  · intro hb
    cases hfind : t.mounts cs with
    | none =>
      have hnot := List.find?_eq_none.1 hfind b hb.1
      simp [hb.2] at hnot
    | some c =>
      have hc := List.mem_of_find?_eq_some hfind
      have hcs : comps c.guest = cs := by simpa using List.find?_some hfind
      have heq : c.guest = b.guest := canonical_ext (h.canonical .guest c hc).1.2
        (h.canonical .guest b hb.1).1.2 (hcs.trans hb.2.symm)
      rw [h.eq_of_guest hc hb.1 heq]

theorem mounts_eq_none_iff : t.mounts cs = none ↔ ∀ b ∈ t.guest, comps b.guest ≠ cs := by
  simp [mounts, List.find?_eq_none]

/-- The cache finds the binding at the deepest mount point of the path. -/
theorem findBestPrefix_eq (h : t.WellFormed) (hpath : IsAbsolute path) :
    t.findBestPrefix path = (deepest t.mounts (comps path)).map (·.2) := by
  have hcan : ∀ x ∈ t.guest, IsCanonical x.guest := fun x hx => (h.canonical .guest x hx).1.2
  simp only [findBestPrefix]
  cases hfind : t.cacheEntries.find? (matchesPrefix path) with
  | none =>
    have hnone : deepest t.mounts (comps path) = none := by
      rw [deepest_eq_none_iff]
      intro cs hcs
      rw [mounts_eq_none_iff]
      intro x hx hxcs
      have hx' : matchesPrefix path x = true := (matchesPrefix_iff hpath (hcan x hx)).2 (hxcs ▸ hcs)
      exact absurd hx' (List.find?_eq_none.1 hfind x (t.perm_cacheEntries.mem_iff.2 hx))
    rw [hnone, Option.map_none]
  | some b =>
    obtain ⟨hb, hbp, hlongest⟩ :=
      find_sorted t.perm_cacheEntries t.cacheEntries_sorted hcan hpath hfind
    have hdeep : deepest t.mounts (comps path) = some (comps b.guest, b) := by
      rw [deepest_eq_some_iff]
      refine ⟨hbp, h.mounts_eq_some_iff.2 ⟨hb, rfl⟩, fun ds hds hlt => ?_⟩
      rw [mounts_eq_none_iff]
      intro x hx hxds
      have hle := (hlongest x hx (hxds ▸ hds)).length_le
      have hlt' := hlt.length_lt
      rw [hxds] at hle
      omega
    rw [hdeep, Option.map_some]

/-- **The GUEST lookup is the lookup of a mount table.** -/
theorem getBinding_guest_eq (h : t.WellFormed) (hpath : IsAbsolute path) :
    t.getBinding .guest path = (deepest t.mounts (comps path)).map (·.2) := by
  have hnone : t.findBestPrefix path = none → t.guest.find? (matchesRef .guest path) = none := by
    intro hfind
    rw [h.findBestPrefix_eq hpath, Option.map_eq_none_iff, deepest_eq_none_iff] at hfind
    rw [List.find?_eq_none]
    intro x hx hmatch
    have hpre : x.key .guest <+: _ := (matchesRef_iff hpath ((h.absolute .guest x hx).ref .guest)).1 hmatch
    exact mounts_eq_none_iff.1 (hfind _ hpre) x hx rfl
  simp only [getBinding, hpath, not_true_eq_false, if_false, if_true, head]
  rw [← h.findBestPrefix_eq hpath]
  cases hfind : t.findBestPrefix path with
  | none => exact hnone hfind
  | some b => rfl

end WellFormed
end Bindings
end NeoProot
