import NeoProot.Path.Cache
import NeoProot.Syscall.MountView

/-!
# The calls and the GUEST list

Mounts, `umount` calls, `pivot_root` calls and copies of a table keep the invariant of the
GUEST list and leave the root binding in its place, whatever the host paths are.

## Main definitions

* `Bindings.Steady` — a change that keeps the invariant and the root binding.
* `TableCall`, `CachedBindings.call` — the calls that read or change a table.
* `Bindings.copyNamespace`, `Bindings.ofRoot` — the tables that calls create.
-/

namespace NeoProot
open MountTable Segments

variable {root : Binding} {a : PivotRoot}

/-! ### Canonical guest paths -/

theorem append_canonical {p q : CStr} (hp : IsCanonical p) (hq : IsCanonical q) (hpr : p ≠ ['/'])
    (hqr : q ≠ ['/']) : IsCanonical (p ++ q) := by
  have hne : ∀ {x : CStr}, IsCanonical x → x ≠ ['/'] → comps x ≠ [] := fun hx hxr hnil =>
    hxr ((comps_eq_nil_iff hx).1 hnil)
  rw [← render_comps hp, ← render_comps hq, ← render_append (hne hp hpr) (hne hq hqr)]
  refine render_canonical fun c hc => ?_
  obtain hc | hc := List.mem_append.1 hc
  · exact comps_names hp c hc
  · exact comps_names hq c hc

/-- What a canonical path continues with at a slash is canonical. -/
theorem drop_canonical {path : CStr} (hpath : IsCanonical path) {n : ℕ} (hn : 0 < n)
    (hslash : path[n]? = some '/') : IsCanonical (path.drop n) := by
  obtain ⟨hlt, hget⟩ := List.getElem?_eq_some_iff.1 hslash
  have habs : IsAbsolute (path.drop n) := by
    rw [IsAbsolute, List.head?_drop, hslash]
  have hfront : IsAbsolute (path.take n) := by
    have hhead : path.head? = some '/' := hpath.1
    rw [IsAbsolute, List.head?_take, if_neg (by omega), hhead]
  have hroot : path ≠ ['/'] := by
    intro heq
    rw [heq, List.length_singleton] at hlt
    omega
  obtain ⟨ds, hds, hdseq, -⟩ := exists_flat_eq hfront
  obtain ⟨es, hes, heseq, hcomps⟩ := exists_flat_eq habs
  have hall : comps path = ds ++ es := by
    have hflat : flat '/' (comps path) = flat '/' (ds ++ es) := by
      rw [flat_append, ← hdseq, ← heseq, List.take_append_drop,
        ← render_of_ne fun hnil => hroot ((comps_eq_nil_iff hpath).1 hnil), render_comps hpath]
    refine flat_injective '/' (segments_sepFree '/' path) ?_ hflat
    intro c hc
    obtain hc | hc := List.mem_append.1 hc
    · exact hds c hc
    · exact hes c hc
  refine ⟨habs, fun c hc => hpath.2.1 c ?_, .inr ?_⟩
  · rw [hall]
    obtain heq | heq := hcomps
    · rw [heq]
      exact List.mem_append_right _ hc
    · rw [heq]
      exact List.mem_append_right _ (List.mem_append_left _ hc)
  · rw [List.getLast?_drop, if_neg (by omega)]
    exact hpath.2.2.resolve_left hroot

/-! ### Steady changes -/

namespace Bindings

/-- A change that keeps the invariant of the GUEST list and its root binding. -/
def Steady (t u : Bindings) : Prop :=
  t.GuestKept → u.GuestKept ∧ t.LayersFrom u ∧ (t.RootLast → u.RootLast)

variable {t u v : Bindings} {b : Binding} {guest : CStr}

theorem Steady.refl (t : Bindings) : t.Steady t := fun h => ⟨h, .refl t, id⟩

theorem Steady.trans (h : t.Steady u) (h' : u.Steady v) : t.Steady v := by
  intro ht
  obtain ⟨hu, hfrom, hlast⟩ := h ht
  obtain ⟨hv, hfrom', hlast'⟩ := h' hu
  exact ⟨hv, hfrom.trans hfrom', hlast' ∘ hlast⟩

theorem steady_insortBinding4 (t : Bindings) (host : CStr) (hguest : IsCanonical guest)
    (mountKind : BindingMountKind) : t.Steady (t.insortBinding4 host guest mountKind).1 :=
  fun h => ⟨(h.insortBinding4 host mountKind hguest).1, (h.insortBinding4 host mountKind hguest).2,
    fun hlast => h.rootLast_insortBinding4 host mountKind hguest (.inl hlast)⟩

theorem steady_setAttributes (t : Bindings) (addr : ℕ) (r sr : Bool) (mf smf : UInt64) :
    t.Steady (t.update addr (·.setAttributes r sr mf smf)) :=
  fun h => ⟨(h.setAttributes addr r sr mf smf).1, (h.setAttributes addr r sr mf smf).2,
    fun hlast => GuestKept.rootLast_setAttributes hlast addr r sr mf smf⟩

theorem steady_copyBinding (t : Bindings) (b : Binding) (hguest : IsCanonical guest) :
    t.Steady (t.copyBinding b guest).1 :=
  (steady_insortBinding4 t b.host hguest b.mountKind).trans (steady_setAttributes _ _ _ _ _ _)

theorem steady_removeBindingFromAllLists {addr : ℕ}
    (haddr : ∀ x ∈ t.guest, x.guest = ['/'] → x.addr ≠ addr) :
    t.Steady (t.removeBindingFromAllLists addr) :=
  fun h => ⟨(h.removeBindingFromAllLists addr).1, (h.removeBindingFromAllLists addr).2,
    fun hlast => GuestKept.rootLast_removeBindingFromAllLists hlast haddr⟩

theorem steady_mount (t : Bindings) {r : MountRequest} (hr : IsCanonical r.guest)
    (hcopies : ∀ p ∈ r.copies, IsCanonical p.1) : t.Steady (t.mount r) := by
  have hloop : ∀ ps : List (CStr × Binding), (∀ p ∈ ps, IsCanonical p.1) → ∀ u, t.Steady u →
      t.Steady (ps.foldl (fun t p => (t.copyBinding p.2 p.1).1) u) := by
    intro ps
    induction ps with
    | nil => exact fun _ _ hu => hu
    | cons p ps ih =>
      intro hps u hu
      exact ih (fun q hq => hps q (by simp [hq])) _
        (hu.trans (steady_copyBinding u p.2 (hps p (by simp))))
  rw [mount_eq]
  exact hloop r.copies hcopies _ (steady_copyBinding t r.binding hr)

/-! ### `pivot_root` -/

/-- A binding that was in the table has the address of no root that is there now. -/
theorem LayersFrom.addr_ne (h : t.GuestKept) (hfrom : t.LayersFrom u) (hb : b ∈ t.guest)
    (hroot : b.guest ≠ ['/']) : ∀ x ∈ u.guest, x.guest = ['/'] → x.addr ≠ b.addr := by
  intro x hx hxr heq
  have hbl := GuestKept.mem_layers hb
  obtain ⟨l, hl, haddr, hguest⟩ := hfrom.old x.toLayer (GuestKept.mem_layers hx)
    (heq ▸ h.fresh _ hbl)
  have hlb : l = b.toLayer := List.inj_on_of_nodup_map h.addrs hl hbl (haddr.trans heq)
  rw [hlb] at hguest
  exact hroot (hguest.trans hxr)

theorem steady_pivotStep (h : t.GuestKept) (hfrom : t.LayersFrom u)
    (hafter : ∀ after, a.putOldAfter = some after → IsCanonical after) (hb : b ∈ t.guest) :
    u.Steady (pivotStep root a u b) := by
  have hbc := h.canonical b hb
  have hne : ∀ after, a.putOldAfter = some after → after ≠ ['/'] := by
    intro after heq hroot
    simp only [PivotRoot.putOldAfter] at heq
    split at heq
    · generalize a.putOldGuest.drop (if a.newRootGuest.length = 1 then 0 else a.newRootGuest.length) = x
        at heq
      split at heq
      · rename_i hlong
        rw [Option.some.inj heq, hroot] at hlong
        simp at hlong
      · simp at heq
    · simp at heq
  simp only [pivotStep]
  split
  · exact .refl u
  rename_i hskip
  rw [not_or] at hskip
  have hremove : ∀ u', u.Steady u' → u.GuestKept → u'.Steady (u'.removeBindingFromAllLists b.addr) :=
    fun u' hu' hu => steady_removeBindingFromAllLists
      ((hfrom.trans (hu' hu).2.1).addr_ne h hb hskip.2)
  split
  · intro hu
    refine Steady.trans ?_ (hremove _ ?_ hu) hu
    all_goals
      split
      · rename_i after c hpo _
        split
        · exact steady_copyBinding u c (append_canonical (hafter after hpo) hbc (hne after hpo) hskip.2)
        · exact .refl u
      · exact .refl u
  · split
    · rename_i hbelow
      intro hu
      have hcopy := steady_copyBinding u b (drop_canonical hbc hbelow.1 hbelow.2.2.2)
      exact hcopy.trans (hremove _ hcopy hu) hu
    · split
      · exact .refl u
      · rename_i after hpo
        split
        · exact .refl u
        · split
          · exact .refl u
          · exact steady_copyBinding u b
              (append_canonical (hafter after hpo) hbc (hne after hpo) hskip.2)

theorem root_canonical : IsCanonical ['/'] := by decide

/-- The new root takes the place of the old one. -/
theorem pivotStart_kept (h : t.GuestKept) (hroot : root ∈ t.guest) (hrootg : root.guest = ['/'])
    (hafter : ∀ after, a.putOldAfter = some after → IsCanonical after) :
    (pivotStart root a t).GuestKept ∧ t.LayersFrom (pivotStart root a t) ∧
      (pivotStart root a t).RootLast := by
  obtain ⟨hrem, hfrom⟩ := h.removeBindingFromAllLists root.addr
  have hnone : ∀ x ∈ (t.removeBindingFromAllLists root.addr).guest, x.guest ≠ ['/'] := by
    intro x hx hxr
    obtain ⟨hx, hxa⟩ := List.mem_filter.1 hx
    rw [h.eq_of_guest hx hroot (hxr.trans hrootg.symm)] at hxa
    simp at hxa
  have hnew := hrem.insortBinding4 a.newRootHost .none root_canonical
  have hlast := hrem.rootLast_insortBinding4 a.newRootHost .none root_canonical (.inr ⟨rfl, hnone⟩)
  simp only [pivotStart]
  generalize hu : (t.removeBindingFromAllLists root.addr).insortBinding4 a.newRootHost ['/'] .none = u
    at hnew hlast
  rw [insortBinding3, hu]
  have hset := steady_setAttributes u.1 u.2.addr ((t.getBinding .guest a.newRootGuest).any (·.readonly))
    ((t.getBinding .guest a.newRootGuest).any (·.sourceReadonly))
    (((t.getBinding .guest a.newRootGuest).map (·.mountFlags)).getD 0)
    (((t.getBinding .guest a.newRootGuest).map (·.sourceMountFlags)).getD 0)
  cases hpo : a.putOldAfter with
  | none =>
    obtain ⟨hk, hf, hl⟩ := hset hnew.1
    exact ⟨hk, (hfrom.trans hnew.2).trans hf, hl hlast⟩
  | some after =>
    obtain ⟨hk, hf, hl⟩ := (hset.trans (steady_insortBinding4 _ root.host (hafter after hpo) .none))
      hnew.1
    exact ⟨hk, (hfrom.trans hnew.2).trans hf, hl hlast⟩

theorem pivotRoot_kept (h : t.GuestKept) (hroot : root ∈ t.guest) (hrootg : root.guest = ['/'])
    (hafter : ∀ after, a.putOldAfter = some after → IsCanonical after) :
    (t.pivotRoot root a).GuestKept ∧ t.LayersFrom (t.pivotRoot root a) ∧
      (t.pivotRoot root a).RootLast := by
  have hstart := pivotStart_kept h hroot hrootg hafter
  have hloop : ∀ l : List Binding, (∀ b ∈ l, b ∈ t.guest) → ∀ u : Bindings,
      u.GuestKept ∧ t.LayersFrom u ∧ u.RootLast →
      (l.foldl (pivotStep root a) u).GuestKept ∧ t.LayersFrom (l.foldl (pivotStep root a) u) ∧
        (l.foldl (pivotStep root a) u).RootLast := by
    intro l
    induction l with
    | nil => exact fun _ u hu => hu
    | cons b l ih =>
      intro hl u hu
      obtain ⟨hk, hf, hlast⟩ := steady_pivotStep h hu.2.1 hafter (hl b (by simp)) hu.1
      exact ih (fun x hx => hl x (by simp [hx])) _ ⟨hk, hu.2.1.trans hf, hlast hu.2.2⟩
  exact hloop t.guest (fun b hb => hb) _ hstart

/-! ### New tables -/

/-- The copy that `unshare_file_system_namespace` and `new_child` make of a table. -/
def copyNamespace (source : Bindings) : Bindings :=
  source.guest.foldl (fun t b => (t.copyBinding b b.guest).1) empty

/-- The table that `new_binding` and `initialize_bindings` make of a root alone. -/
def ofRoot (host : CStr) : Bindings :=
  let (t, b) := empty.newBinding host ['/']
  { (t.insortBinding2 b).1 with pending := [] }

theorem empty_kept : empty.GuestKept where
  pending := rfl
  canonical := by simp [empty]
  covered := by simp [empty]
  unique := List.nodup_nil
  addrs := List.nodup_nil
  fresh := by simp [layers, empty]

theorem copyNamespace_kept (h : t.GuestKept) (hlast : t.RootLast) :
    t.copyNamespace.GuestKept ∧ t.copyNamespace.RootLast := by
  obtain ⟨l, root, hl, hroot⟩ := hlast
  have hbefore : ∀ x ∈ l, x.guest ≠ ['/'] := by
    intro x hx hxr
    have hnodup := List.Nodup.of_map _ h.unique
    have heq := h.eq_of_guest (x := x) (y := root) (by simp [hl, hx]) (by simp [hl])
      (hxr.trans hroot.symm)
    rw [hl, List.nodup_append] at hnodup
    exact hnodup.2.2 x hx root (by simp) heq
  -- Without the root: no binding of the copy is on the root.
  have hloop : ∀ m : List Binding, (∀ x ∈ m, IsCanonical x.guest ∧ x.guest ≠ ['/']) →
      ∀ u : Bindings, u.GuestKept ∧ (∀ x ∈ u.guest, x.guest ≠ ['/']) →
        (m.foldl (fun t b => (t.copyBinding b b.guest).1) u).GuestKept ∧
          ∀ x ∈ (m.foldl (fun t b => (t.copyBinding b b.guest).1) u).guest, x.guest ≠ ['/'] := by
    intro m
    induction m with
    | nil => exact fun _ u hu => hu
    | cons b m ih =>
      intro hm u hu
      obtain ⟨hbc, hbr⟩ := hm b (by simp)
      exact ih (fun x hx => hm x (by simp [hx])) _
        ⟨(hu.1.copyBinding hbc).1, hu.1.no_root_copyBinding hbc hbr hu.2⟩
  have hcopy := hloop l (fun x hx => ⟨h.canonical x (by simp [hl, hx]), hbefore x hx⟩) empty
    ⟨empty_kept, by simp [empty]⟩
  have hrootc : IsCanonical root.guest := h.canonical root (by simp [hl])
  rw [copyNamespace, hl, List.foldl_append, List.foldl_cons, List.foldl_nil]
  exact ⟨(hcopy.1.copyBinding hrootc).1,
    hcopy.1.rootLast_copyBinding hrootc (.inr ⟨hroot, hcopy.2⟩)⟩

theorem ofRoot_eq (host : CStr) : ∃ b : Binding, b.guest = ['/'] ∧ b.covered = [] ∧ b.addr < 1 ∧
    (ofRoot host).pending = [] ∧ (ofRoot host).guest = [b] ∧ (ofRoot host).fresh = 1 := by
  have hhost := guest_insortBinding_host
    ((empty.newBinding host ['/']).1.insortBinding .guest
      (empty.newBinding host ['/']).2.withSubstitution).1
    ((empty.newBinding host ['/']).1.insortBinding .guest
      (empty.newBinding host ['/']).2.withSubstitution).2
  exact ⟨(empty.newLayer host ['/'] .none).withSubstitution, rfl, rfl, Nat.one_pos, rfl, hhost.1,
    hhost.2.2.1⟩

theorem ofRoot_kept (host : CStr) : (ofRoot host).GuestKept ∧ (ofRoot host).RootLast := by
  obtain ⟨b, hguest, hcovered, haddr, hpending, hlist, hfresh⟩ := ofRoot_eq host
  refine ⟨⟨hpending, ?_, ?_, ?_, ?_, ?_⟩, [], b, hlist, hguest⟩
  · simp [hlist, hguest, root_canonical]
  · simp [hlist, hcovered]
  · simp [hlist]
  · simp [layers, hlist, Binding.layers, hcovered]
  · simpa [layers, hlist, Binding.layers, hcovered, hfresh] using haddr

end Bindings

/-! ### The calls -/

/-- What a tracee asks of its table. -/
inductive TableCall
  | getBinding (side : Side) (path : CStr)
  | getRoot
  | insortBinding4 (host guest : CStr) (mountKind : BindingMountKind)
  | setAttributes (addr : ℕ) (readonly sourceReadonly : Bool) (mountFlags sourceMountFlags : UInt64)
  | mount (r : MountRequest)
  | umount (guestPath : CStr)
  | pivotRoot (a : PivotRoot)
  deriving DecidableEq, Repr

/-- The guest paths that a call inserts are canonical. -/
def TableCall.Canonical : TableCall → Prop
  | .insortBinding4 _ guest _ => IsCanonical guest
  | .mount r => IsCanonical r.guest ∧ ∀ p ∈ r.copies, IsCanonical p.1
  | .pivotRoot a => ∀ after ∈ a.putOldAfter, IsCanonical after
  | _ => True

instance : DecidablePred TableCall.Canonical
  | .insortBinding4 _ guest _ => inferInstanceAs (Decidable (IsCanonical guest))
  | .mount r => inferInstanceAs (Decidable (IsCanonical r.guest ∧ ∀ p ∈ r.copies, IsCanonical p.1))
  | .pivotRoot a => inferInstanceAs (Decidable (∀ after ∈ a.putOldAfter, IsCanonical after))
  | .getBinding _ _ | .getRoot | .setAttributes _ _ _ _ _ | .umount _ =>
    inferInstanceAs (Decidable True)

namespace CachedBindings

/-- `emulate_umount` behind the resolution of its target. -/
def umount (c : CachedBindings) (guestPath : CStr) : CachedBindings :=
  if guestPath = ['/'] then c
  else
    match c.getBinding .guest guestPath with
    | (none, c) => c
    | (some binding, c) =>
      if binding.guest ≠ guestPath then c else c.change (·.removeBindingAndRestoreCovered binding)

/-- `emulate_pivot_root` behind the resolution of its paths. -/
def pivotRoot (c : CachedBindings) (a : PivotRoot) : CachedBindings :=
  match c.getBinding .guest ['/'] with
  | (none, c) => c
  | (some root, c) => c.change (·.pivotRoot root a)

/-- A call. -/
def call (c : CachedBindings) : TableCall → CachedBindings
  | .getBinding side path => (c.getBinding side path).2
  | .getRoot => c.getRoot.2
  | .insortBinding4 host guest mountKind => c.change fun t => (t.insortBinding4 host guest mountKind).1
  | .setAttributes addr readonly sourceReadonly mountFlags sourceMountFlags =>
    c.setAttributes addr readonly sourceReadonly mountFlags sourceMountFlags
  | .mount r => c.change (·.mount r)
  | .umount guestPath => c.umount guestPath
  | .pivotRoot a => c.pivotRoot a

/-- A table that answers as it should. -/
structure Kept (c : CachedBindings) : Prop where
  coherent : c.Coherent
  guest : c.bindings.GuestKept
  root : c.bindings.RootLast

variable {c : CachedBindings}

theorem Kept.change (h : c.Kept) {f : Bindings → Bindings} (hf : c.bindings.Steady (f c.bindings)) :
    (c.change f).Kept ∧ c.bindings.LayersFrom (c.change f).bindings := by
  obtain ⟨hguest, hfrom, hroot⟩ := hf h.guest
  exact ⟨⟨coherent_change f c, hguest, hroot h.root⟩, hfrom⟩

theorem Kept.same (h : c.Kept) {c' : CachedBindings} (hc : c'.Coherent)
    (heq : c'.bindings = c.bindings) : c'.Kept ∧ c.bindings.LayersFrom c'.bindings :=
  ⟨⟨hc, heq ▸ h.guest, heq ▸ h.root⟩, heq ▸ .refl _⟩

theorem Kept.getBinding (h : c.Kept) {side : Side} {path : CStr} {found : Option Binding}
    {c' : CachedBindings} (hget : c.getBinding side path = (found, c')) :
    c'.bindings = c.bindings ∧ c'.Kept ∧
      (side = .guest → IsAbsolute path → ∀ b ∈ found, b ∈ c.bindings.guest ∧
        comps b.guest <+: comps path) := by
  have hcoherent := h.coherent.getBinding side path
  have hbind := c.bindings_getBinding side path
  rw [hget] at hcoherent hbind
  refine ⟨hbind, (h.same hcoherent hbind).1, fun hside hpath b hb => ?_⟩
  subst hside
  obtain ⟨b', hb', hsome, hprefix, -⟩ := (h.coherent.answers h.guest h.root).2 path hpath
  rw [hget] at hsome
  have heq : b = b' := Option.some.inj ((Option.mem_def.1 hb).symm.trans hsome)
  rw [heq]
  exact ⟨hb', hprefix⟩

theorem Kept.umount (h : c.Kept) (guestPath : CStr) :
    (c.umount guestPath).Kept ∧ c.bindings.LayersFrom (c.umount guestPath).bindings := by
  by_cases hroot : guestPath = ['/']
  · rw [CachedBindings.umount, if_pos hroot]
    exact h.same h.coherent rfl
  · rw [CachedBindings.umount, if_neg hroot]
    cases hget : c.getBinding .guest guestPath with
    | mk found c' =>
      obtain ⟨hbind, hkept, hfound⟩ := h.getBinding hget
      cases found with
      | none => exact h.same hkept.coherent hbind
      | some b =>
        by_cases heq : b.guest = guestPath
        · simp only [heq, ne_eq, not_true_eq_false, if_false]
          have hpath : IsAbsolute guestPath := by
            by_contra hnot
            simp [CachedBindings.getBinding, hnot] at hget
          have hb := (hfound rfl hpath b rfl).1
          rw [← hbind] at hb ⊢
          refine hkept.change fun ht => ?_
          obtain ⟨hguest, hfrom, hlast⟩ := ht.removeBindingAndRestoreCovered hb
          exact ⟨hguest, hfrom, fun hroot' => hlast hroot' (heq ▸ hroot)⟩
        · simp only [ne_eq, heq, not_false_eq_true, if_true]
          exact h.same hkept.coherent hbind

theorem Kept.pivotRoot (h : c.Kept) (ha : ∀ after ∈ a.putOldAfter, IsCanonical after) :
    (c.pivotRoot a).Kept ∧ c.bindings.LayersFrom (c.pivotRoot a).bindings := by
  rw [CachedBindings.pivotRoot]
  cases hget : c.getBinding .guest ['/'] with
  | mk found c' =>
    obtain ⟨hbind, hkept, hfound⟩ := h.getBinding hget
    cases found with
    | none => exact h.same hkept.coherent hbind
    | some root =>
      obtain ⟨hroot, hprefix⟩ := hfound rfl (by decide) root rfl
      have hrootg : root.guest = ['/'] :=
        (comps_eq_nil_iff (h.guest.canonical root hroot)).1 (List.prefix_nil.1 hprefix)
      rw [← hbind] at hroot ⊢
      obtain ⟨hguest, hfrom, hlast⟩ := Bindings.pivotRoot_kept hkept.guest hroot hrootg ha
      exact hkept.change fun _ => ⟨hguest, hfrom, fun _ => hlast⟩

/-- **A call with canonical guest paths keeps a table.** -/
theorem Kept.call (h : c.Kept) {call : TableCall} (hcall : call.Canonical) :
    (c.call call).Kept ∧ c.bindings.LayersFrom (c.call call).bindings := by
  cases call with
  | getBinding side path =>
    exact h.same (h.coherent.getBinding side path) (c.bindings_getBinding side path)
  | getRoot => exact h.same h.coherent.getRoot.2.1 h.coherent.getRoot.2.2
  | insortBinding4 host guest mountKind =>
    exact h.change (f := fun t => (t.insortBinding4 host guest mountKind).1)
      (Bindings.steady_insortBinding4 _ host hcall mountKind)
  | setAttributes addr r sr mf smf =>
    obtain ⟨hguest, hfrom, hroot⟩ := Bindings.steady_setAttributes c.bindings addr r sr mf smf h.guest
    exact ⟨⟨h.coherent.setAttributes h.guest.pending addr r sr mf smf, hguest, hroot h.root⟩, hfrom⟩
  | mount r =>
    exact h.change (f := fun t => t.mount r) (Bindings.steady_mount _ hcall.1 hcall.2)
  | umount guestPath => exact h.umount guestPath
  | pivotRoot a => exact h.pivotRoot hcall

end CachedBindings
end NeoProot
