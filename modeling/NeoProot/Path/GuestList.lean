import NeoProot.Path.Mounts

/-!
# The GUEST list

What the list operations keep of the GUEST list alone: the host paths of the bindings do
not matter here, nor does the order of HOST.  The root binding is the last one of the list
from the start on, and an insertion puts no other binding behind it.

## Main definitions

* `GuestKept` — the invariant of the list.
* `RootLast` — the root binding exists and is the last one.
* `LayersFrom` — every layer of a table is one of another table, or a new one.
-/

namespace NeoProot
open MountTable

variable {x y : Binding} {l₁ l₂ : List Binding}

/-- The layers of a binding, its own first. -/
def Binding.layers (b : Binding) : List Layer := b.toLayer :: b.covered

namespace Bindings

/-- The layers of the GUEST list. -/
def layers (t : Bindings) : List Layer := t.guest.flatMap Binding.layers

/-- The invariant of a GUEST list behind the start of its tracee. -/
structure GuestKept (t : Bindings) : Prop where
  pending : t.pending = []
  canonical : ∀ b ∈ t.guest, IsCanonical b.guest
  covered : ∀ b ∈ t.guest, ∀ l ∈ b.covered, l.guest = b.guest
  unique : (t.guest.map fun b => b.guest).Nodup
  addrs : (t.layers.map fun l => l.addr).Nodup
  fresh : ∀ l ∈ t.layers, l.addr < t.fresh

/-- The root binding is the last one of the list. -/
def RootLast (t : Bindings) : Prop := ∃ l root, t.guest = l ++ [root] ∧ root.guest = ['/']

/-- Where every layer of `t'` with an address that `t` has used comes from. -/
structure LayersFrom (t t' : Bindings) : Prop where
  fresh : t.fresh ≤ t'.fresh
  old : ∀ l' ∈ t'.layers, l'.addr < t.fresh → ∃ l ∈ t.layers, l.addr = l'.addr ∧ l.guest = l'.guest

theorem LayersFrom.refl (t : Bindings) : t.LayersFrom t := ⟨le_rfl, fun l hl _ => ⟨l, hl, rfl, rfl⟩⟩

theorem LayersFrom.trans {t u v : Bindings} (h : t.LayersFrom u) (h' : u.LayersFrom v) :
    t.LayersFrom v where
  fresh := h.fresh.trans h'.fresh
  old := by
    intro l'' hl'' hlt
    obtain ⟨l', hl', haddr', hguest'⟩ := h'.old l'' hl'' (lt_of_lt_of_le hlt h.fresh)
    obtain ⟨l, hl, haddr, hguest⟩ := h.old l' hl' (haddr' ▸ hlt)
    exact ⟨l, hl, haddr.trans haddr', hguest.trans hguest'⟩

/-- An insertion of `b` into the GUEST list puts it between `l₁` and `l₂`. -/
structure Inserted (t : Bindings) (b : Binding) (l₁ l₂ : List Binding) : Prop where
  rest : t.guest.filter (fun x => decide (x.guest ≠ b.guest)) = l₁ ++ l₂
  guest : (t.insortBinding .guest b).1.guest = l₁ ++ t.onTop b :: l₂
  pending : (t.insortBinding .guest b).1.pending = []
  fresh : (t.insortBinding .guest b).1.fresh = t.fresh
  snd : (t.insortBinding .guest b).2 = t.onTop b
  root : b.guest = ['/'] → t.RootLast ∨ (∀ x ∈ t.guest, x.guest ≠ ['/']) → l₂ = []
  inner : b.guest ≠ ['/'] → t.RootLast → ∃ l root, l₂ = l ++ [root] ∧ root.guest = ['/']

/-! ### The HOST list does not matter -/

theorem scan_host_ne_duplicate (path : CStr) (l : List Binding) (i : ℕ) (prev : Option ℕ)
    (next k : ℕ) : scan .host path i prev next l ≠ .duplicate k := by
  induction l generalizing i prev next with
  | nil => simp [scan]
  | cons x l ih =>
    rw [scan]
    split
    · simp
    · exact ih _ _ _
    · exact ih _ _ _
    · exact ih _ _ _

theorem guest_insortBinding_host (t : Bindings) (b : Binding) :
    (t.insortBinding .host b).1.guest = t.guest ∧
      (t.insortBinding .host b).1.pending = t.pending ∧
      (t.insortBinding .host b).1.fresh = t.fresh ∧ (t.insortBinding .host b).2 = b := by
  simp only [insortBinding]
  cases hscan : scan .host (b.ref .host) 0 none 0 (t.head .host) with
  | duplicate k => exact absurd hscan (scan_host_ne_duplicate _ _ _ _ _ _)
  | place prev next =>
    cases prev with
    | some i => exact ⟨rfl, rfl, rfl, rfl⟩
    | none =>
      by_cases hnext : next = 0
      · simp only [hnext, ne_eq, not_true_eq_false, if_false]
        exact ⟨rfl, rfl, rfl, trivial⟩
      · simp only [ne_eq, hnext, not_false_eq_true, if_true]
        exact ⟨rfl, rfl, rfl, trivial⟩

namespace GuestKept

variable {t : Bindings} {b : Binding}

theorem absolute (h : t.GuestKept) : ∀ x ∈ t.head .guest, IsAbsolute (x.ref .guest) :=
  fun x hx => (h.canonical x hx).1

theorem key_eq_iff (h : t.GuestKept) (hx : x ∈ t.guest) (hb : IsCanonical b.guest) :
    x.key .guest = b.key .guest ↔ x.guest = b.guest :=
  ⟨canonical_ext (h.canonical x hx) hb, fun heq => congrArg comps heq⟩

theorem mem_layers (hx : x ∈ t.guest) : x.toLayer ∈ t.layers :=
  List.mem_flatMap.2 ⟨x, hx, by simp [Binding.layers]⟩

theorem eq_of_guest (h : t.GuestKept) (hx : x ∈ t.guest) (hy : y ∈ t.guest)
    (heq : x.guest = y.guest) : x = y :=
  List.inj_on_of_nodup_map h.unique hx hy heq

theorem eq_of_addr (h : t.GuestKept) (hx : x ∈ t.guest) (hy : y ∈ t.guest) (heq : x.addr = y.addr) :
    x = y := by
  have hlayers := List.inj_on_of_nodup_map h.addrs (mem_layers hx) (mem_layers hy) heq
  exact h.eq_of_guest hx hy (congrArg Layer.guest hlayers)

/-- Two ways to write a list with its last element. -/
private theorem last_eq {l m : List Binding} (h : l ++ [x] = m ++ [y]) : x = y := by
  have heq := List.append_inj_right' h rfl
  rw [List.cons.injEq] at heq
  exact heq.1

/-- An insertion on a guest path that is bound. -/
theorem inserted_of_bound (h : t.GuestKept) (hb : IsCanonical b.guest)
    (hdisj : ∀ x ∈ t.guest, x.addr ≠ b.addr) {it : Binding} (hl : t.guest = l₁ ++ it :: l₂)
    (hkey : it.key .guest = b.key .guest) (hres : t.insortBinding .guest b =
      ((t.setHead .guest (l₁ ++ it :: b.covering it :: l₂)).removeBindingFromAllLists it.addr,
        b.covering it)) : t.Inserted b l₁ l₂ := by
  have hit : it ∈ t.guest := by simp [hl]
  have hguest : it.guest = b.guest := (h.key_eq_iff hit hb).1 hkey
  have hnodup := List.Nodup.of_map _ h.unique
  rw [hl, List.nodup_middle, List.nodup_cons] at hnodup
  have hmem : ∀ x ∈ l₁ ++ l₂, x ∈ t.guest ∧ x ≠ it := by
    intro x hx
    refine ⟨?_, fun heq => hnodup.1 (heq ▸ hx)⟩
    rw [hl]
    simp only [List.mem_append, List.mem_cons] at hx ⊢
    tauto
  have haddr : ∀ x ∈ l₁ ++ l₂, decide (x.addr ≠ it.addr) = true := fun x hx =>
    decide_eq_true fun ha => (hmem x hx).2 (h.eq_of_addr (hmem x hx).1 hit ha)
  have hkeep : ∀ x ∈ l₁ ++ l₂, decide (x.guest ≠ b.guest) = true := fun x hx =>
    decide_eq_true fun hg => (hmem x hx).2 (h.eq_of_guest (hmem x hx).1 hit (hg.trans hguest.symm))
  have htop : t.onTop b = b.covering it := by
    have hfind : t.guest.find? (fun x => decide (x.guest = b.guest)) = some it := by
      rw [List.find?_eq_some_iff_append]
      refine ⟨decide_eq_true hguest, l₁, l₂, hl, fun x hx => ?_⟩
      have hx' := hkeep x (by simp [hx])
      simpa using hx'
    simp only [onTop, hfind]
  constructor
  · rw [hl, List.filter_append, List.filter_cons,
      List.filter_eq_self.2 fun x hx => hkeep x (by simp [hx]),
      List.filter_eq_self.2 fun x hx => hkeep x (by simp [hx])]
    simp [hguest]
  · rw [hres, htop]
    simp only [removeBindingFromAllLists, setHead]
    have hself : decide ((b.covering it).addr ≠ it.addr) = true :=
      decide_eq_true fun ha => hdisj it hit ha.symm
    rw [List.filter_append, List.filter_cons, List.filter_cons, hself,
      List.filter_eq_self.2 fun x hx => haddr x (by simp [hx]),
      List.filter_eq_self.2 fun x hx => haddr x (by simp [hx])]
    simp
  · rw [hres]
    simp [removeBindingFromAllLists, setHead, h.pending]
  · rw [hres]
    rfl
  · rw [hres, htop]
  · intro hroot hlast
    obtain hlast | hnone := hlast
    · obtain ⟨l, root, hl', hrootg⟩ := hlast
      have heq : root = it := h.eq_of_guest (by simp [hl']) hit (by rw [hrootg, hguest, hroot])
      obtain rfl | ⟨m, x, rfl⟩ := List.eq_nil_or_concat l₂
      · rfl
      · rw [hl', List.concat_eq_append, ← List.cons_append, ← List.append_assoc] at hl
        exact absurd ((last_eq hl).symm.trans heq) (hmem x (by simp)).2
    · exact absurd (hguest.trans hroot) (hnone it hit)
  · intro hroot hlast
    obtain ⟨l, root, hl', hrootg⟩ := hlast
    obtain rfl | ⟨m, x, rfl⟩ := List.eq_nil_or_concat l₂
    · rw [hl'] at hl
      rw [← last_eq hl, hrootg] at hguest
      exact absurd hguest.symm hroot
    · rw [hl', List.concat_eq_append, ← List.cons_append, ← List.append_assoc] at hl
      exact ⟨m, x, by simp, last_eq hl ▸ hrootg⟩

/-- An insertion on a guest path of its own. -/
theorem inserted_of_free (h : t.GuestKept) (hb : IsCanonical b.guest) (hl : t.guest = l₁ ++ l₂)
    (hne : ∀ x ∈ t.guest, x.key .guest ≠ b.key .guest)
    (hplace : Place (Binding.key .guest) (b.key .guest) l₁ l₂)
    (hres : t.insortBinding .guest b = (t.setHead .guest (l₁ ++ b :: l₂), b)) :
    t.Inserted b l₁ l₂ := by
  have hnone : ∀ x ∈ t.guest, x.guest ≠ b.guest := fun x hx hg =>
    hne x hx ((h.key_eq_iff hx hb).2 hg)
  have htop : t.onTop b = b := by
    have hfind : t.guest.find? (fun x => decide (x.guest = b.guest)) = none :=
      List.find?_eq_none.2 fun x hx => by simpa using hnone x hx
    simp only [onTop, hfind]
  constructor
  · rw [List.filter_eq_self.2 fun x hx => decide_eq_true (hnone x hx)]
    exact hl
  · rw [hres, htop]
    rfl
  · rw [hres]
    exact h.pending
  · rw [hres]
    rfl
  · rw [hres, htop]
  · -- Every path extends the root, so the place is behind all of them.
    intro hroot _
    have hkey : b.key .guest = [] := (comps_eq_nil_iff hb).2 hroot
    rw [hkey] at hplace hne
    cases hplace with
    | behind x hx hrest =>
      obtain hrest | hrest := hrest
      · exact absurd hrest (hne x (by simp [hl]))
      · rw [List.eq_nil_iff_forall_not_mem]
        intro y hy
        exact hrest y hy ⟨List.nil_prefix, Ne.symm (hne y (by simp [hl, hy]))⟩
    | atHead hdeep _ =>
      rw [List.eq_nil_iff_forall_not_mem]
      exact fun y hy => hdeep y hy List.nil_prefix
    | @before x _ _ _ hdeep _ _ => exact absurd List.nil_prefix (hdeep x (by simp))
  · -- The root extends no other path, so the place is not behind it.
    intro hroot hlast
    obtain ⟨l, root, hl', hrootg⟩ := hlast
    have hl₂ : l₂ ≠ [] := by
      intro hnil
      rw [hl', hnil, List.append_nil] at hl
      cases hplace with
      | behind x hx _ =>
        have hkey : root.key .guest = [] := by
          change comps root.guest = []
          rw [hrootg]
          rfl
        rw [← last_eq hl, hkey, List.prefix_nil] at hx
        exact hroot ((comps_eq_nil_iff hb).1 hx)
      | atHead _ _ => simp at hl
      | before _ _ _ => simp at hnil
    obtain rfl | ⟨m, x, rfl⟩ := List.eq_nil_or_concat l₂
    · exact absurd rfl hl₂
    · rw [hl', List.concat_eq_append, ← List.append_assoc] at hl
      exact ⟨m, x, by simp, last_eq hl ▸ hrootg⟩

theorem exists_inserted (h : t.GuestKept) (hb : IsCanonical b.guest)
    (hdisj : ∀ x ∈ t.guest, x.addr ≠ b.addr) : ∃ l₁ l₂, t.Inserted b l₁ l₂ := by
  obtain ⟨l₁, it, l₂, -, hl, hkey, -, hres⟩ | ⟨l₁, l₂, hl, hne, hplace, hres⟩ :=
    insortBinding_spec t .guest b hb.1 h.absolute
  · exact ⟨l₁, l₂, h.inserted_of_bound hb hdisj hl hkey hres⟩
  · exact ⟨l₁, l₂, h.inserted_of_free hb hl (hne (by simp)) hplace hres⟩

/-- What `insort_binding2` leaves of the list. -/
theorem insortBinding2_eq (h : t.GuestKept) (hb : IsCanonical b.guest)
    (hdisj : ∀ x ∈ t.guest, x.addr ≠ b.addr) :
    ∃ l₁ l₂, t.Inserted b.withSubstitution l₁ l₂ ∧
      (t.insortBinding2 b).1.guest = l₁ ++ t.onTop b.withSubstitution :: l₂ ∧
      (t.insortBinding2 b).1.pending = [] ∧ (t.insortBinding2 b).1.fresh = t.fresh ∧
      (t.insortBinding2 b).2.addr = b.addr := by
  have hb' : IsCanonical b.withSubstitution.guest := hb
  obtain ⟨l₁, l₂, hins⟩ := h.exists_inserted hb' hdisj
  have hhost := guest_insortBinding_host (t.insortBinding .guest b.withSubstitution).1
    (t.insortBinding .guest b.withSubstitution).2
  refine ⟨l₁, l₂, hins, ?_, ?_, ?_, ?_⟩
  · exact hhost.1.trans hins.guest
  · exact hhost.2.1.trans hins.pending
  · exact hhost.2.2.1.trans hins.fresh
  · refine (congrArg (fun x : Binding => x.addr) hhost.2.2.2).trans ?_
    rw [hins.snd, onTop_addr]
    rfl

theorem mem_rest (hins : t.Inserted b l₁ l₂) (hx : x ∈ l₁ ++ l₂) :
    x ∈ t.guest ∧ x.guest ≠ b.guest := by
  rw [← hins.rest, List.mem_filter, decide_eq_true_eq] at hx
  exact hx

/-- The layers of the top binding and those of the other bindings. -/
theorem layers_perm (h : t.GuestKept) (hins : t.Inserted b l₁ l₂) :
    ∃ top, (top = b.layers ∨ top = [b.toLayer]) ∧
      ((l₁ ++ t.onTop b :: l₂).flatMap Binding.layers).Perm (top ++ t.layers) := by
  have hmid : ((l₁ ++ t.onTop b :: l₂).flatMap Binding.layers).Perm
      ((t.onTop b).layers ++ (l₁ ++ l₂).flatMap Binding.layers) :=
    List.perm_middle.flatMap_right _
  obtain ⟨hnone, htop⟩ | ⟨it, hit, hitg, htop⟩ := WellFormed.onTop_cases t b
  · have hself : t.guest = l₁ ++ l₂ := by
      rw [← hins.rest, List.filter_eq_self.2 fun x hx => decide_eq_true (hnone x hx)]
    refine ⟨b.layers, .inl rfl, ?_⟩
    rw [layers, hself]
    rwa [htop] at hmid ⊢
  · have hperm := (perm_cons_filter h.unique hit).flatMap_right Binding.layers
    rw [hitg, hins.rest] at hperm
    refine ⟨[b.toLayer], .inr rfl, hmid.trans ?_⟩
    rw [htop]
    exact (hperm.symm.cons b.toLayer)

/-- The insertion of a binding with new addresses. -/
theorem insortBinding2 (h : t.GuestKept) (hb : IsCanonical b.guest)
    (hcov : ∀ l ∈ b.covered, l.guest = b.guest)
    (hdisj : ∀ l ∈ b.layers, ∀ l' ∈ t.layers, l'.addr ≠ l.addr)
    (hnodup : (b.layers.map fun l => l.addr).Nodup) (hfresh : ∀ l ∈ b.layers, l.addr < t.fresh) :
    (t.insortBinding2 b).1.GuestKept ∧
      (∀ l ∈ (t.insortBinding2 b).1.layers, l ∈ t.layers ∨ ∃ l' ∈ b.layers, l'.addr = l.addr ∧
        l'.guest = l.guest) := by
  have hself : b.toLayer ∈ b.layers := by simp [Binding.layers]
  obtain ⟨l₁, l₂, hins, hguest, hpending, hfresh', -⟩ :=
    h.insortBinding2_eq hb fun x hx => hdisj _ hself _ (mem_layers hx)
  obtain ⟨top, htop, hperm⟩ := h.layers_perm hins
  have hlayers : (t.insortBinding2 b).1.layers.Perm (top ++ t.layers) := by
    rw [layers, hguest]
    exact hperm
  have hsub : ∀ l ∈ top, ∃ l' ∈ b.layers, l'.addr = l.addr ∧ l'.guest = l.guest := by
    intro l hl
    obtain rfl | rfl := htop
    · obtain rfl | hl := List.mem_cons.1 hl
      · exact ⟨b.toLayer, hself, rfl, rfl⟩
      · exact ⟨l, by simp [Binding.layers, show l ∈ b.covered from hl], rfl, rfl⟩
    · rw [List.mem_singleton] at hl
      subst hl
      exact ⟨b.toLayer, hself, rfl, rfl⟩
  have htopnodup : (top.map fun l => l.addr).Nodup := by
    obtain rfl | rfl := htop
    · exact hnodup
    · exact List.nodup_singleton _
  refine ⟨⟨hpending, ?_, ?_, ?_, ?_, ?_⟩, fun l hl => ?_⟩
  · intro x hx
    rw [hguest] at hx
    obtain hx | rfl | hx : x ∈ l₁ ∨ x = t.onTop b.withSubstitution ∨ x ∈ l₂ := by simpa using hx
    · exact h.canonical x (mem_rest hins (by simp [hx])).1
    · rw [onTop_guest]
      exact hb
    · exact h.canonical x (mem_rest hins (by simp [hx])).1
  · intro x hx l hl
    rw [hguest] at hx
    obtain hx | rfl | hx : x ∈ l₁ ∨ x = t.onTop b.withSubstitution ∨ x ∈ l₂ := by simpa using hx
    · exact h.covered x (mem_rest hins (by simp [hx])).1 l hl
    · obtain ⟨-, heq⟩ | ⟨it, hit, hitg, heq⟩ := WellFormed.onTop_cases t b.withSubstitution
      · rw [heq] at hl ⊢
        exact hcov l hl
      · rw [heq] at hl ⊢
        obtain rfl | hl := List.mem_cons.1 hl
        · exact hitg
        · exact (h.covered it hit l hl).trans hitg
    · exact h.covered x (mem_rest hins (by simp [hx])).1 l hl
  · rw [hguest, List.map_append, List.map_cons, List.nodup_middle, List.nodup_cons,
      ← List.map_append]
    constructor
    · intro hmem
      obtain ⟨x, hx, hxg⟩ := List.mem_map.1 hmem
      rw [onTop_guest] at hxg
      exact (mem_rest hins hx).2 hxg
    · rw [← hins.rest]
      exact h.unique.sublist (List.filter_sublist.map _)
  · rw [(hlayers.map _).nodup_iff, List.map_append, List.nodup_append]
    refine ⟨htopnodup, h.addrs, fun a ha a' ha' heq => ?_⟩
    obtain ⟨l, hl, rfl⟩ := List.mem_map.1 ha
    obtain ⟨l', hl', rfl⟩ := List.mem_map.1 ha'
    obtain ⟨l'', hl'', haddr, -⟩ := hsub l hl
    exact hdisj l'' hl'' l' hl' (heq.symm.trans haddr.symm)
  · intro l hl
    rw [hfresh']
    obtain hl | hl := List.mem_append.1 (hlayers.mem_iff.1 hl)
    · obtain ⟨l', hl', haddr, -⟩ := hsub l hl
      exact haddr ▸ hfresh l' hl'
    · exact h.fresh l hl
  · obtain hl | hl := List.mem_append.1 (hlayers.mem_iff.1 hl)
    · exact .inr (hsub l hl)
    · exact .inl hl

/-- An insertion keeps the root binding last, and an insertion of it puts it there. -/
theorem rootLast_insortBinding2 (h : t.GuestKept) (hb : IsCanonical b.guest)
    (hdisj : ∀ x ∈ t.guest, x.addr ≠ b.addr)
    (hlast : t.RootLast ∨ b.guest = ['/'] ∧ ∀ x ∈ t.guest, x.guest ≠ ['/']) :
    (t.insortBinding2 b).1.RootLast := by
  obtain ⟨l₁, l₂, hins, hguest, -⟩ := h.insortBinding2_eq hb hdisj
  by_cases hroot : b.guest = ['/']
  · have hnil := hins.root hroot (hlast.imp_right fun hnone => hnone.2)
    subst hnil
    exact ⟨l₁, t.onTop b.withSubstitution, hguest, (onTop_guest _ _).trans hroot⟩
  · obtain ⟨l, root, rfl, hrootg⟩ := hins.inner hroot (hlast.resolve_right fun hr => hroot hr.1)
    exact ⟨l₁ ++ t.onTop b.withSubstitution :: l, root, by rw [hguest]; simp, hrootg⟩

/-- An insertion elsewhere binds no root. -/
theorem no_root_insortBinding2 (h : t.GuestKept) (hb : IsCanonical b.guest)
    (hdisj : ∀ x ∈ t.guest, x.addr ≠ b.addr) (hroot : b.guest ≠ ['/'])
    (hnone : ∀ x ∈ t.guest, x.guest ≠ ['/']) :
    ∀ x ∈ (t.insortBinding2 b).1.guest, x.guest ≠ ['/'] := by
  obtain ⟨l₁, l₂, hins, hguest, -⟩ := h.insortBinding2_eq hb hdisj
  intro x hx
  rw [hguest] at hx
  obtain hx | rfl | hx : x ∈ l₁ ∨ x = t.onTop b.withSubstitution ∨ x ∈ l₂ := by simpa using hx
  · exact hnone x (mem_rest hins (by simp [hx])).1
  · rw [onTop_guest]
    exact hroot
  · exact hnone x (mem_rest hins (by simp [hx])).1

/-! ### The operations -/

theorem allocate (h : t.GuestKept) : GuestKept { t with fresh := t.fresh + 1 } :=
  ⟨h.pending, h.canonical, h.covered, h.unique, h.addrs, fun l hl => (h.fresh l hl).trans (by simp)⟩

variable {guest : CStr}

theorem fresh_not_mem (h : t.GuestKept) : ∀ l ∈ t.layers, l.addr ≠ t.fresh :=
  fun l hl heq => absurd (h.fresh l hl) (by omega)

theorem insortBinding4 (h : t.GuestKept) (host : CStr) (mountKind : BindingMountKind)
    (hguest : IsCanonical guest) :
    (t.insortBinding4 host guest mountKind).1.GuestKept ∧
      t.LayersFrom (t.insortBinding4 host guest mountKind).1 := by
  have hlayers : (t.newLayer host guest mountKind).layers =
      [(t.newLayer host guest mountKind).toLayer] := rfl
  have hnew : ∀ l ∈ (t.newLayer host guest mountKind).layers, l.addr = t.fresh := by
    intro l hl
    rw [hlayers, List.mem_singleton] at hl
    rw [hl]
    rfl
  obtain ⟨hkept, hfrom⟩ := h.allocate.insortBinding2 (b := t.newLayer host guest mountKind) hguest
    (by simp [newLayer]) (fun l hl l' hl' heq => h.fresh_not_mem l' hl' (heq.trans (hnew l hl)))
    (by rw [hlayers]; exact List.nodup_singleton _)
    (fun l hl => by rw [hnew l hl]; exact Nat.lt_succ_self _)
  obtain ⟨_, _, -, -, -, hfresh, -⟩ := h.allocate.insortBinding2_eq
    (b := t.newLayer host guest mountKind) hguest fun x hx => h.fresh_not_mem _ (mem_layers hx)
  refine ⟨hkept, ⟨?_, fun l hl hlt => ?_⟩⟩
  · change t.fresh ≤ (Bindings.insortBinding2 _ _).1.fresh
    rw [hfresh]
    exact Nat.le_succ _
  · obtain hl | ⟨l', hl', haddr, -⟩ := hfrom l hl
    · exact ⟨l, hl, rfl, rfl⟩
    · have := hnew l' hl'
      omega

/-- The new binding is the only layer with its address. -/
theorem insortBinding4_snd (h : t.GuestKept) (host : CStr) (mountKind : BindingMountKind)
    (hguest : IsCanonical guest) :
    (t.insortBinding4 host guest mountKind).2.addr < (t.insortBinding4 host guest mountKind).1.fresh ∧
      ∀ l ∈ (t.insortBinding4 host guest mountKind).1.layers,
        l.addr = (t.insortBinding4 host guest mountKind).2.addr → l.guest = guest := by
  obtain ⟨l₁, l₂, hins, hlist, -, hfresh, haddr⟩ := h.allocate.insortBinding2_eq
    (b := t.newLayer host guest mountKind) hguest fun x hx => h.fresh_not_mem _ (mem_layers hx)
  have hsnd : (t.insortBinding4 host guest mountKind).2.addr = t.fresh := haddr
  have hfresh' : (t.insortBinding4 host guest mountKind).1.fresh = t.fresh + 1 := hfresh
  refine ⟨by omega, fun l hl heq => ?_⟩
  obtain ⟨top, htop, hperm⟩ := h.allocate.layers_perm hins
  have hmem : l ∈ top ++ t.layers := by
    refine hperm.mem_iff.1 ?_
    rw [← hlist]
    exact hl
  obtain hl | hl := List.mem_append.1 hmem
  · obtain rfl | rfl := htop
    · obtain rfl | hl := List.mem_cons.1 hl
      · rfl
      · exact absurd hl (List.not_mem_nil)
    · rw [List.mem_singleton] at hl
      rw [hl]
      rfl
  · exact absurd (heq.trans hsnd) (h.fresh_not_mem l hl)

theorem rootLast_insortBinding4 (h : t.GuestKept) (host : CStr) (mountKind : BindingMountKind)
    (hguest : IsCanonical guest)
    (hlast : t.RootLast ∨ guest = ['/'] ∧ ∀ x ∈ t.guest, x.guest ≠ ['/']) :
    (t.insortBinding4 host guest mountKind).1.RootLast :=
  h.allocate.rootLast_insortBinding2 (b := t.newLayer host guest mountKind) hguest
    (fun _ hx => h.fresh_not_mem _ (mem_layers hx)) hlast

theorem no_root_insortBinding4 (h : t.GuestKept) (host : CStr) (mountKind : BindingMountKind)
    (hguest : IsCanonical guest) (hroot : guest ≠ ['/']) (hnone : ∀ x ∈ t.guest, x.guest ≠ ['/']) :
    ∀ x ∈ (t.insortBinding4 host guest mountKind).1.guest, x.guest ≠ ['/'] :=
  h.allocate.no_root_insortBinding2 (b := t.newLayer host guest mountKind) hguest
    (fun _ hx => h.fresh_not_mem _ (mem_layers hx)) hroot hnone

section Attributes

variable (t) (addr : ℕ) (r sr : Bool) (mf smf : UInt64)

theorem guest_setAttributes_ite (x : Binding) :
    (if x.addr = addr then x.setAttributes r sr mf smf else x).guest = x.guest ∧
      (if x.addr = addr then x.setAttributes r sr mf smf else x).addr = x.addr ∧
      (if x.addr = addr then x.setAttributes r sr mf smf else x).covered = x.covered := by
  split <;> exact ⟨rfl, rfl, rfl⟩

theorem map_guest_update :
    (t.update addr (·.setAttributes r sr mf smf)).guest.map (fun b => b.guest) =
      t.guest.map fun b => b.guest := by
  simp only [Bindings.update, List.map_map]
  exact List.map_congr_left fun x _ => (guest_setAttributes_ite addr r sr mf smf x).1

theorem map_layers_update :
    (t.update addr (·.setAttributes r sr mf smf)).layers.map (fun l => (l.addr, l.guest)) =
      t.layers.map fun l => (l.addr, l.guest) := by
  simp only [Bindings.layers, Bindings.update, List.flatMap_map, List.map_flatMap]
  refine List.flatMap_congr fun x _ => ?_
  obtain ⟨hguest, haddr, hcovered⟩ := guest_setAttributes_ite addr r sr mf smf x
  rw [Binding.layers, Binding.layers, List.map_cons, List.map_cons, hcovered]
  rw [hguest, haddr]

end Attributes

theorem setAttributes (h : t.GuestKept) (addr : ℕ) (r sr : Bool) (mf smf : UInt64) :
    (t.update addr (·.setAttributes r sr mf smf)).GuestKept ∧
      t.LayersFrom (t.update addr (·.setAttributes r sr mf smf)) := by
  have hmap := map_layers_update t addr r sr mf smf
  have hmem : ∀ l' ∈ (t.update addr (·.setAttributes r sr mf smf)).layers,
      ∃ l ∈ t.layers, l.addr = l'.addr ∧ l.guest = l'.guest := by
    intro l' hl'
    have hpair := List.mem_map_of_mem (f := fun l : Layer => (l.addr, l.guest)) hl'
    rw [hmap] at hpair
    obtain ⟨l, hl, heq⟩ := List.mem_map.1 hpair
    rw [Prod.mk.injEq] at heq
    exact ⟨l, hl, heq.1, heq.2⟩
  refine ⟨⟨?_, ?_, ?_, ?_, ?_, ?_⟩, le_rfl, fun l' hl' _ => hmem l' hl'⟩
  · simp [Bindings.update, h.pending]
  · intro x hx
    obtain ⟨y, hy, rfl⟩ := List.mem_map.1 hx
    rw [(guest_setAttributes_ite addr r sr mf smf y).1]
    exact h.canonical y hy
  · intro x hx l hl
    obtain ⟨y, hy, rfl⟩ := List.mem_map.1 hx
    rw [(guest_setAttributes_ite addr r sr mf smf y).2.2] at hl
    rw [(guest_setAttributes_ite addr r sr mf smf y).1]
    exact h.covered y hy l hl
  · rw [map_guest_update]
    exact h.unique
  · have haddrs := congrArg (List.map Prod.fst) hmap
    simp only [List.map_map, Function.comp_def] at haddrs
    rw [haddrs]
    exact h.addrs
  · intro l' hl'
    obtain ⟨l, hl, haddr, -⟩ := hmem l' hl'
    exact haddr ▸ h.fresh l hl

theorem rootLast_setAttributes (h : t.RootLast) (addr : ℕ) (r sr : Bool) (mf smf : UInt64) :
    (t.update addr (·.setAttributes r sr mf smf)).RootLast := by
  obtain ⟨l, root, hl, hroot⟩ := h
  refine ⟨l.map fun b => if b.addr = addr then b.setAttributes r sr mf smf else b,
    if root.addr = addr then root.setAttributes r sr mf smf else root, ?_,
    (guest_setAttributes_ite addr r sr mf smf root).1.trans hroot⟩
  simp only [Bindings.update, hl, List.map_append, List.map_cons, List.map_nil]

theorem no_root_setAttributes (hnone : ∀ x ∈ t.guest, x.guest ≠ ['/']) (addr : ℕ) (r sr : Bool)
    (mf smf : UInt64) :
    ∀ x ∈ (t.update addr (·.setAttributes r sr mf smf)).guest, x.guest ≠ ['/'] := by
  intro x hx
  obtain ⟨y, hy, rfl⟩ := List.mem_map.1 hx
  rw [(guest_setAttributes_ite addr r sr mf smf y).1]
  exact hnone y hy

theorem copyBinding (h : t.GuestKept) (hguest : IsCanonical guest) :
    (t.copyBinding b guest).1.GuestKept ∧ t.LayersFrom (t.copyBinding b guest).1 := by
  obtain ⟨hkept, hfrom⟩ := h.insortBinding4 b.host b.mountKind hguest
  have hset := hkept.setAttributes (t.insortBinding4 b.host guest b.mountKind).2.addr b.readonly
    b.sourceReadonly b.mountFlags b.sourceMountFlags
  exact ⟨hset.1, hfrom.trans hset.2⟩

theorem rootLast_copyBinding (h : t.GuestKept) (hguest : IsCanonical guest)
    (hlast : t.RootLast ∨ guest = ['/'] ∧ ∀ x ∈ t.guest, x.guest ≠ ['/']) :
    (t.copyBinding b guest).1.RootLast :=
  rootLast_setAttributes (h.rootLast_insortBinding4 b.host b.mountKind hguest hlast) _ _ _ _ _

theorem no_root_copyBinding (h : t.GuestKept) (hguest : IsCanonical guest) (hroot : guest ≠ ['/'])
    (hnone : ∀ x ∈ t.guest, x.guest ≠ ['/']) :
    ∀ x ∈ (t.copyBinding b guest).1.guest, x.guest ≠ ['/'] :=
  no_root_setAttributes (h.no_root_insortBinding4 b.host b.mountKind hguest hroot hnone) _ _ _ _ _

theorem removeBindingFromAllLists (h : t.GuestKept) (addr : ℕ) :
    (t.removeBindingFromAllLists addr).GuestKept ∧ t.LayersFrom (t.removeBindingFromAllLists addr) := by
  have hsub : (t.guest.filter fun b => decide (b.addr ≠ addr)).Sublist t.guest := List.filter_sublist
  have hlayers : (t.removeBindingFromAllLists addr).layers.Sublist t.layers :=
    hsub.flatMap Binding.layers
  refine ⟨⟨?_, ?_, ?_, ?_, ?_, ?_⟩, le_rfl, fun l hl _ => ⟨l, hlayers.subset hl, rfl, rfl⟩⟩
  · simp [Bindings.removeBindingFromAllLists, h.pending]
  · exact fun x hx => h.canonical x (hsub.subset hx)
  · exact fun x hx => h.covered x (hsub.subset hx)
  · exact h.unique.sublist (hsub.map _)
  · exact h.addrs.sublist (hlayers.map _)
  · exact fun l hl => h.fresh l (hlayers.subset hl)

theorem rootLast_removeBindingFromAllLists (h : t.RootLast) {addr : ℕ}
    (haddr : ∀ x ∈ t.guest, x.guest = ['/'] → x.addr ≠ addr) :
    (t.removeBindingFromAllLists addr).RootLast := by
  obtain ⟨l, root, hl, hroot⟩ := h
  refine ⟨l.filter fun b => decide (b.addr ≠ addr), root, ?_, hroot⟩
  have hkeep : decide (root.addr ≠ addr) = true := decide_eq_true (haddr root (by simp [hl]) hroot)
  simp only [Bindings.removeBindingFromAllLists, hl, List.filter_append, List.filter_cons, hkeep,
    List.filter_nil, if_true]

theorem removeBindingAndRestoreCovered (h : t.GuestKept) (hb : b ∈ t.guest) :
    (t.removeBindingAndRestoreCovered b).GuestKept ∧
      t.LayersFrom (t.removeBindingAndRestoreCovered b) ∧
      (t.RootLast → b.guest ≠ ['/'] → (t.removeBindingAndRestoreCovered b).RootLast) := by
  obtain ⟨hrem, hfrom⟩ := h.removeBindingFromAllLists b.addr
  have hother : ∀ x ∈ (t.removeBindingFromAllLists b.addr).guest, x ∈ t.guest ∧ x.addr ≠ b.addr := by
    intro x hx
    have hx' := List.mem_filter.1 hx
    exact ⟨hx'.1, of_decide_eq_true hx'.2⟩
  have hroot : t.RootLast → b.guest ≠ ['/'] → (t.removeBindingFromAllLists b.addr).RootLast := by
    intro hlast hne
    refine rootLast_removeBindingFromAllLists hlast fun x hx hxr ha => hne ?_
    rw [← h.eq_of_addr hx hb ha]
    exact hxr
  simp only [Bindings.removeBindingAndRestoreCovered]
  cases hc : b.coveredBinding with
  | none => exact ⟨hrem, hfrom, hroot⟩
  | some c =>
    have hcov := Binding.coveredBinding_eq_some hc
    have hcl : ∀ l ∈ c.layers, l ∈ b.covered := fun l hl => hcov ▸ hl
    have hcg : c.guest = b.guest := h.covered b hb c.toLayer (hcl _ (by simp [Binding.layers]))
    have hcan : IsCanonical c.guest := hcg ▸ h.canonical b hb
    have hbl : ∀ l ∈ b.covered, l ∈ t.layers := fun l hl =>
      List.mem_flatMap.2 ⟨b, hb, by simp [Binding.layers, hl]⟩
    -- The layers of `b` are not those of another binding.
    obtain ⟨g₁, g₂, hg⟩ := List.append_of_mem hb
    have hperm : t.layers.Perm (b.layers ++ (g₁ ++ g₂).flatMap Binding.layers) := by
      rw [layers, hg]
      exact List.perm_middle.flatMap_right _
    have hnodup := h.addrs
    rw [(hperm.map _).nodup_iff, List.map_append, List.nodup_append] at hnodup
    have hbmap : b.layers.map (fun l => l.addr) = b.addr :: c.layers.map fun l => l.addr := by
      rw [Binding.layers, hcov]
      rfl
    have hdisj : ∀ l ∈ c.layers, ∀ l' ∈ (t.removeBindingFromAllLists b.addr).layers,
        l'.addr ≠ l.addr := by
      intro l hl l' hl' heq
      obtain ⟨x, hx, hlx⟩ := List.mem_flatMap.1 hl'
      obtain ⟨hxt, hxb⟩ := hother x hx
      have hxmem : x ∈ g₁ ++ g₂ := by
        rw [hg] at hxt
        simp only [List.mem_append, List.mem_cons] at hxt ⊢
        obtain hxt | rfl | hxt := hxt
        · exact .inl hxt
        · exact absurd rfl hxb
        · exact .inr hxt
      refine hnodup.2.2 l.addr ?_ l'.addr (List.mem_map_of_mem (List.mem_flatMap.2 ⟨x, hxmem, hlx⟩))
        heq.symm
      exact List.mem_map_of_mem (by simp [Binding.layers, hcl l hl])
    have hcnodup : (c.layers.map fun l => l.addr).Nodup := by
      have hself := hnodup.1
      rw [hbmap, List.nodup_cons] at hself
      exact hself.2
    obtain ⟨hkept, hback⟩ := hrem.insortBinding2 (b := c) hcan
      (fun l hl => (h.covered b hb l (hcl l (by simp [Binding.layers, hl]))).trans hcg.symm) hdisj
      hcnodup (fun l hl => h.fresh l (hbl l (hcl l hl)))
    refine ⟨hkept, ⟨?_, fun l hl _ => ?_⟩, fun hlast hne => ?_⟩
    · obtain ⟨_, _, -, -, -, hfresh, -⟩ := hrem.insortBinding2_eq (b := c) hcan fun x hx =>
        hdisj c.toLayer (by simp [Binding.layers]) _ (mem_layers hx)
      rw [hfresh]
      exact le_rfl
    · obtain hl | ⟨l', hl', haddr, hguest⟩ := hback l hl
      · exact hfrom.old l hl (hrem.fresh l hl)
      · exact ⟨l', hbl l' (hcl l' hl'), haddr, hguest⟩
    · exact hrem.rootLast_insortBinding2 (b := c) hcan
        (fun x hx => hdisj c.toLayer (by simp [Binding.layers]) _ (mem_layers hx))
        (.inl (hroot hlast hne))

end GuestKept
end Bindings
end NeoProot
