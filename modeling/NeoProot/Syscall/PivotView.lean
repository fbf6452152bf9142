import NeoProot.Syscall.PivotRoot

/-!
# The guest tree after `pivot_root`

The loop of `emulate_pivot_root` is a list of edits of the mount table: each binding
of the snapshot writes at most one place and may remove itself.  `hosts_foldl_pivotStep`
says what a list of such edits leaves, and from that the tree the guest sees follows.

## Main definitions

* `PivotRoot.place`, `PivotRoot.removes` — the edit of one binding.
* `PivotRoot.oldTree` — what the pivot leaves of the old tree.
-/

namespace NeoProot
open MountTable

variable {cs : List CStr} {a : PivotRoot} {root : Binding}

/-- Only the root has no second character. -/
theorem render_below_iff (h : ∀ c ∈ cs, IsName c) :
    (render cs)[0]? = some '/' ∧ (render cs)[1]? ≠ none ↔ cs ≠ [] := by
  cases cs with
  | nil => simp
  | cons c cs =>
    have hc := (h c (by simp)).1
    obtain ⟨a, s, rfl⟩ := List.exists_cons_of_ne_nil hc
    simp [render]

namespace PivotRoot

variable {a : PivotRoot} {b : Binding} {t : Bindings} {cs : List CStr}

/-- The paths of a call are canonical. -/
structure Canonical (a : PivotRoot) : Prop where
  newRootHost : IsCanonical a.newRootHost
  newRootGuest : IsCanonical a.newRootGuest
  putOldGuest : IsCanonical a.putOldGuest

/-- The components of the new root. -/
def newRoot (a : PivotRoot) : List CStr := comps a.newRootGuest

/-- **Where the old root is put.** -/
theorem putOldAfter_eq_some_iff (ha : a.Canonical) {after : CStr} :
    a.putOldAfter = some after ↔
      ∃ q, q ≠ [] ∧ comps a.putOldGuest = a.newRoot ++ q ∧ after = render q := by
  have hnn := comps_names ha.newRootGuest
  have hpn := comps_names ha.putOldGuest
  have hg := render_comps ha.newRootGuest
  have hp := render_comps ha.putOldGuest
  simp only [putOldAfter, newRoot]
  rw [← hg, ← hp, comps_render hnn, comps_render hpn]
  generalize comps a.newRootGuest = n at hnn ⊢
  generalize comps a.putOldGuest = m at hpn ⊢
  by_cases hn : n = []
  · subst hn
    obtain ⟨s, hs⟩ := List.head?_eq_some_iff.1 (render_absolute m)
    have hroot : ['/'] <+: render m := by
      rw [hs]
      exact ⟨s, rfl⟩
    simp only [render_nil, List.length_singleton, Nat.lt_one_iff, if_true, List.drop_zero, hroot]
    simp only [render_below_iff hpn]
    by_cases hm : m = []
    · simp [hm]
    · simp [hm, eq_comm]
  · have hlen := flat_length_pos hnn hn
    rw [← render_of_ne hn] at hlen
    have hone : ¬ (render n).length = 1 := by omega
    simp only [hone, false_and, or_false, if_false]
    have hiff := render_isPrefix_iff hnn hpn hn
    constructor
    · intro h
      split at h
      · rename_i hcond
        obtain ⟨q, rfl⟩ := hiff.1 ⟨hcond.2.1, .inr hcond.2.2⟩
        have hq : q ≠ [] := by
          intro hq
          rw [hq, List.append_nil, List.getElem?_eq_none le_rfl] at hcond
          exact absurd hcond.2.2 (by simp)
        rw [render_append hn hq, List.drop_left] at h
        split at h
        · exact ⟨q, hq, rfl, (Option.some.inj h).symm⟩
        · simp at h
      · simp at h
    · intro h
      obtain ⟨q, hq, rfl, rfl⟩ := h
      have hqn : ∀ c ∈ q, IsName c := fun c hc => hpn c (List.mem_append_right _ hc)
      have hsecond := (render_below_iff hqn).2 hq
      have hpre := (hiff.2 (List.prefix_append n q)).1
      rw [render_append hn hq, List.drop_left, List.getElem?_append_right le_rfl, Nat.sub_self]
      rw [render_append hn hq] at hpre
      rw [if_pos ⟨by omega, hpre, hsecond.1⟩, if_pos hsecond]

/-- The bindings that move with the new root. -/
def removes (a : PivotRoot) (b : Binding) : Prop := a.newRoot ≠ [] ∧ a.newRoot <+: comps b.guest

instance (a : PivotRoot) (b : Binding) : Decidable (a.removes b) :=
  inferInstanceAs (Decidable (_ ∧ _))

/-- The place a binding of the snapshot is copied to, and what is copied there. -/
def place (a : PivotRoot) (b : Binding) : Option (List CStr × List CStr) :=
  let c := comps b.guest
  if c = [] then none
  else if c = a.newRoot then
    a.putOldAfter.bind fun after => b.coveredBinding.bind fun covered =>
      if (after ++ b.guest).length < pathMax then some (comps after ++ c, comps covered.host)
      else none
  else if a.removes b then
    some (c.drop a.newRoot.length, comps b.host)
  else
    a.putOldAfter.bind fun after =>
      if comps after <+: c ∨ pathMax ≤ (after ++ b.guest).length then none
      else some (comps after ++ c, comps b.host)

end PivotRoot

/-- What a binding of the snapshot writes at a place. -/
def PivotRoot.placed (a : PivotRoot) (cs : List CStr) (b : Binding) : Option (List CStr) :=
  (a.place b).bind fun w => if w.1 = cs then some w.2 else none

theorem PivotRoot.placed_eq_some_iff {host : List CStr} {b : Binding} :
    a.placed cs b = some host ↔ a.place b = some (cs, host) := by
  rw [placed]
  cases hplace : a.place b with
  | none => simp
  | some w =>
    obtain ⟨ds, h⟩ := w
    rw [Option.bind_some]
    by_cases hds : ds = cs
    · simp [hds]
    · simp [hds]

/-! ### The edits of the mount table -/

namespace Bindings

/-- `t'` is `t` with at most one place written, by a binding with a new address, and
with at most one binding taken away. -/
structure Edited (t t' : Bindings) (place : Option (List CStr × List CStr)) (gone : Option ℕ) :
    Prop where
  wellFormed : t'.WellFormed
  fresh : t.fresh ≤ t'.fresh
  written : ∀ cs host, place = some (cs, host) →
    ∃ x, t'.mounts cs = some x ∧ t.fresh ≤ x.addr ∧ comps x.host = host
  kept : ∀ cs, (∀ host, place ≠ some (cs, host)) →
    t'.mounts cs = (t.mounts cs).filter fun x => decide (some x.addr ≠ gone)

namespace Edited

variable {t t' : Bindings} {b : Binding} {place : Option (List CStr × List CStr)}

theorem refl (h : t.WellFormed) : Edited t t none none where
  wellFormed := h
  fresh := le_rfl
  written := by simp
  kept := fun cs _ => by
    cases t.mounts cs with
    | none => rfl
    | some x => rw [Option.filter_some_pos (by simp)]

theorem copyBinding (h : t.WellFormed) {guest : CStr}
    (hp : IsCanonical b.host ∧ IsCanonical guest) :
    Edited t (t.copyBinding b guest).1 (some (comps guest, comps b.host)) none := by
  obtain ⟨hfresh, haddr, hhost, hmounts⟩ := h.mounts_copyBinding hp
  refine ⟨h.copyBinding hp, by omega, fun cs host hplace => ?_, fun cs hcs => ?_⟩
  · obtain ⟨rfl, rfl⟩ := Prod.mk.inj (Option.some.inj hplace)
    refine ⟨_, by rw [hmounts, if_pos rfl], by omega, by rw [hhost]⟩
  · rw [hmounts, if_neg fun heq => hcs (comps b.host) (by rw [heq])]
    cases t.mounts cs with
    | none => rfl
    | some x => rw [Option.filter_some_pos (by simp)]

theorem remove (h : Edited t t' place none) {addr : ℕ} (haddr : addr < t.fresh) :
    Edited t (t'.removeBindingFromAllLists addr) place (some addr) := by
  refine ⟨h.wellFormed.removeBindingFromAllLists addr, h.fresh, fun cs host hplace => ?_,
    fun cs hcs => ?_⟩
  · obtain ⟨x, hx, hnew, hhost⟩ := h.written cs host hplace
    refine ⟨x, ?_, hnew, hhost⟩
    rw [h.wellFormed.mounts_removeBindingFromAllLists, hx, Option.filter_some_pos]
    exact decide_eq_true (by omega)
  · rw [h.wellFormed.mounts_removeBindingFromAllLists, h.kept cs hcs]
    cases t.mounts cs <;> simp

end Edited

section PivotStep

variable {t : Bindings} {b root : Binding} {a : PivotRoot}

/-- A place below `put_old_after`. -/
theorem comps_append_guest (ha : a.Canonical) (hb : IsCanonical b.guest)
    (hbnil : comps b.guest ≠ []) {after : CStr} (hafter : a.putOldAfter = some after) :
    IsCanonical (after ++ b.guest) ∧ comps (after ++ b.guest) = comps after ++ comps b.guest := by
  have hbn := comps_names hb
  obtain ⟨q, hq, hput, rfl⟩ := (PivotRoot.putOldAfter_eq_some_iff ha).1 hafter
  have hqn : ∀ c ∈ q, IsName c := fun c hc =>
    comps_names ha.putOldGuest c (hput ▸ List.mem_append_right _ hc)
  have hall : ∀ c ∈ q ++ comps b.guest, IsName c := fun c hc =>
    (List.mem_append.1 hc).elim (hqn c) (hbn c)
  have hwhole : render q ++ b.guest = render (q ++ comps b.guest) := by
    rw [render_append hq hbnil, render_comps hb]
  rw [hwhole, comps_render hall, comps_render hqn]
  exact ⟨render_canonical hall, rfl⟩

/-- The test of the loop for a binding below the new root. -/
theorem below_newRoot_iff (ha : a.Canonical) (hb : IsCanonical b.guest)
    (hbnil : comps b.guest ≠ []) (hself : comps b.guest ≠ a.newRoot) :
    (0 < a.newRootGuest.length ∧ a.newRootGuest.length < b.guest.length ∧
        a.newRootGuest <+: b.guest ∧ b.guest[a.newRootGuest.length]? = some '/') ↔
      a.removes b := by
  have hbn := comps_names hb
  have hnn := comps_names ha.newRootGuest
  rw [PivotRoot.removes, PivotRoot.newRoot, ← render_comps ha.newRootGuest, ← render_comps hb,
    comps_render hnn, comps_render hbn]
  have hne : comps b.guest ≠ comps a.newRootGuest := hself
  generalize comps b.guest = bs at hbn hne hbnil ⊢
  generalize comps a.newRootGuest = n at hnn hne ⊢
  by_cases hn : n = []
  · subst hn
    refine iff_of_false (fun hcond => ?_) fun hcond => hcond.1 rfl
    obtain ⟨d, ds, rfl⟩ := List.exists_cons_of_ne_nil hbnil
    obtain ⟨e, s, hes⟩ := List.exists_cons_of_ne_nil (hbn d (by simp)).1
    have hsecond : e = '/' := by
      simpa [render, hes] using hcond.2.2.2
    exact (hbn d (by simp)).2 (by rw [hes, hsecond]; simp)
  · have hlen := flat_length_pos hnn hn
    rw [← render_of_ne hn] at hlen
    constructor
    · intro hcond
      exact ⟨hn, (render_isPrefix_iff hnn hbn hn).1 ⟨hcond.2.2.1, .inr hcond.2.2.2⟩⟩
    · intro hcond
      obtain ⟨x, rfl⟩ := hcond.2
      have hx : x ≠ [] := fun hx => hne (by rw [hx, List.append_nil])
      have hxn : ∀ c ∈ x, IsName c := fun c hc => hbn c (List.mem_append_right _ hc)
      have hxlen := flat_length_pos hxn hx
      rw [← render_of_ne hx] at hxlen
      rw [render_append hn hx, List.length_append, List.getElem?_append_right le_rfl, Nat.sub_self]
      exact ⟨by omega, by omega, List.prefix_append _ _, ((render_below_iff hxn).2 hx).1⟩

/-- The round for the binding of the new root itself. -/
theorem edited_pivotStep_newRoot (h : t.WellFormed) (ha : a.Canonical) (hb : b.Canonical)
    (hnot : ¬ (b.addr = root.addr ∨ b.guest = ['/'])) (hbnil : comps b.guest ≠ [])
    (haddr : b.addr < t.fresh) (hself : b.guest = a.newRootGuest) :
    Edited t (t.pivotStep root a b) (a.place b) (if a.removes b then some b.addr else none) := by
  have hcomps : comps b.guest = a.newRoot := congrArg comps hself
  have hremoves : a.removes b := ⟨hcomps ▸ hbnil, hcomps ▸ List.prefix_rfl⟩
  rw [pivotStep, if_neg hnot, PivotRoot.place, if_neg hbnil, if_pos hself, if_pos hcomps,
    if_pos hremoves]
  cases hafter : a.putOldAfter with
  | none => exact (Edited.refl h).remove haddr
  | some after =>
    cases hcov : b.coveredBinding with
    | none => exact (Edited.refl h).remove haddr
    | some covered =>
      obtain ⟨hcan, hplace⟩ := comps_append_guest ha hb.1.2 hbnil hafter
      simp only [Option.bind_some]
      by_cases hfit : (after ++ b.guest).length < pathMax
      · simp only [if_pos hfit]
        rw [← hplace]
        exact (Edited.copyBinding h ⟨(hb.coveredBinding hcov).1.1.1, hcan⟩).remove haddr
      · simp only [if_neg hfit]
        exact (Edited.refl h).remove haddr

/-- **One round of the loop.** -/
theorem edited_pivotStep (h : t.WellFormed) (ha : a.Canonical) (hb : b.Canonical)
    (hroot : b.addr = root.addr → b.guest = ['/']) (haddr : b.addr < t.fresh) :
    Edited t (t.pivotStep root a b) (a.place b) (if a.removes b then some b.addr else none) := by
  have hbn := comps_names hb.1.2
  have hbr := render_comps hb.1.2
  have hnil := comps_eq_nil_iff hb.1.2
  by_cases hbnil : b.guest = ['/']
  · have hplace : a.place b = none := by rw [PivotRoot.place, if_pos (hnil.2 hbnil)]
    have hremoves : ¬ a.removes b := by
      intro hr
      rw [PivotRoot.removes, hnil.2 hbnil, List.prefix_nil] at hr
      exact hr.1 hr.2
    rw [pivotStep, if_pos (.inr hbnil), hplace, if_neg hremoves]
    exact .refl h
  have hbnil' : comps b.guest ≠ [] := fun heq => hbnil (hnil.1 heq)
  have hnot : ¬ (b.addr = root.addr ∨ b.guest = ['/']) :=
    fun hor => hbnil (hor.elim hroot id)
  by_cases hbself : b.guest = a.newRootGuest
  · exact edited_pivotStep_newRoot h ha hb hnot hbnil' haddr hbself
  have hbn' : comps b.guest ≠ a.newRoot := fun heq =>
    hbself (canonical_ext hb.1.2 ha.newRootGuest heq)
  have hbelow := below_newRoot_iff ha hb.1.2 hbnil' hbn'
  rw [pivotStep, if_neg hnot, PivotRoot.place, if_neg hbnil', if_neg hbself, if_neg hbn']
  by_cases hremoves : a.removes b
  · rw [if_pos (hbelow.2 hremoves), if_pos hremoves, if_pos hremoves]
    obtain ⟨hn, x, hx⟩ := hremoves
    have hxne : x ≠ [] := by
      intro hxnil
      rw [hxnil, List.append_nil] at hx
      exact hbn' hx.symm
    have hxn : ∀ c ∈ x, IsName c := fun c hc => hbn c (hx ▸ List.mem_append_right _ hc)
    have hdrop : b.guest.drop a.newRootGuest.length = render x := by
      rw [← hbr, ← hx, ← render_comps ha.newRootGuest]
      change (render (a.newRoot ++ x)).drop (render a.newRoot).length = _
      rw [render_append hn hxne, List.drop_left]
    rw [hdrop, ← hx, List.drop_left]
    have hcopy := Edited.copyBinding h (b := b) ⟨hb.1.1, render_canonical hxn⟩
    rw [comps_render hxn] at hcopy
    exact hcopy.remove haddr
  · rw [if_neg fun hcond => hremoves (hbelow.1 hcond), if_neg hremoves, if_neg hremoves]
    cases hafter : a.putOldAfter with
    | none => exact .refl h
    | some after =>
      obtain ⟨hcan, hcomps⟩ := comps_append_guest ha hb.1.2 hbnil' hafter
      obtain ⟨q, hq, hput, rfl⟩ := (PivotRoot.putOldAfter_eq_some_iff ha).1 hafter
      have hqn : ∀ c ∈ q, IsName c := fun c hc =>
        comps_names ha.putOldGuest c (hput ▸ List.mem_append_right _ hc)
      have hguard := render_isPrefix_iff hqn hbn hq
      rw [hbr] at hguard
      simp only [Option.bind_some, hguard]
      rw [comps_render hqn] at hcomps ⊢
      by_cases hat : q <+: comps b.guest
      · rw [if_pos hat, if_pos (.inl hat)]
        exact .refl h
      · rw [if_neg hat]
        by_cases hfit : pathMax ≤ (render q ++ b.guest).length
        · rw [if_pos hfit, if_pos (.inr hfit)]
          exact .refl h
        · rw [if_neg hfit, if_neg fun hor => hor.elim hat hfit, ← hcomps]
          exact .copyBinding h ⟨hb.1.1, hcan⟩

end PivotStep

/-- **The table when the loop begins.** -/
theorem mounts_pivotStart {t : Bindings} (h : t.WellFormed) (ha : a.Canonical)
    (hroot : t.mounts [] = some root) :
    (pivotStart root a t).WellFormed ∧ t.fresh ≤ (pivotStart root a t).fresh ∧
      (∃ x, (pivotStart root a t).mounts [] = some x ∧ t.fresh ≤ x.addr ∧
        x.host = a.newRootHost) ∧
      (∀ after, a.putOldAfter = some after →
        ∃ x, (pivotStart root a t).mounts (comps after) = some x ∧ t.fresh ≤ x.addr ∧
          x.host = root.host) ∧
      ∀ cs, cs ≠ [] → (∀ after, a.putOldAfter = some after → comps after ≠ cs) →
        (pivotStart root a t).mounts cs = t.mounts cs := by
  obtain ⟨hrootmem, hrootnil⟩ := h.mounts_eq_some_iff.1 hroot
  have hremoved : ∀ cs, cs ≠ [] →
      (t.removeBindingFromAllLists root.addr).mounts cs = t.mounts cs := by
    intro cs hcs
    rw [h.mounts_removeBindingFromAllLists]
    cases hx : t.mounts cs with
    | none => rfl
    | some x =>
      obtain ⟨hxmem, hxcs⟩ := h.mounts_eq_some_iff.1 hx
      have hne : x.addr ≠ root.addr := by
        intro haddr
        have hself := h.eq_of_addr (List.mem_append_left _ hxmem)
          (List.mem_append_left _ hrootmem) haddr
        rw [hself, hrootnil] at hxcs
        exact hcs hxcs.symm
      rw [Option.filter_some, if_pos (decide_eq_true hne)]
  have h1 := h.removeBindingFromAllLists root.addr
  have hfresh1 : (t.removeBindingFromAllLists root.addr).fresh = t.fresh := rfl
  have hnilpath : IsCanonical ['/'] := by decide
  have hnilcomps : comps ['/'] = [] := by decide
  have hp : IsCanonical a.newRootHost ∧ IsCanonical ['/'] := ⟨ha.newRootHost, hnilpath⟩
  simp only [pivotStart, insortBinding3]
  generalize t.removeBindingFromAllLists root.addr = t1 at h1 hremoved hfresh1 ⊢
  have h2 := h1.insortBinding4 hp .none
  have hmounts2 := h1.mounts_insortBinding4 hp .none
  obtain ⟨haddr2, hhost2, hfresh2⟩ := h1.insortBinding4_snd hp .none
  generalize t1.insortBinding4 a.newRootHost ['/'] .none = r at h2 hmounts2 haddr2 hhost2 hfresh2 ⊢
  obtain ⟨t2, new⟩ := r
  dsimp only at h2 hmounts2 haddr2 hhost2 hfresh2 ⊢
  generalize (t.getBinding .guest a.newRootGuest).any (·.readonly) = ro
  generalize (t.getBinding .guest a.newRootGuest).any (·.sourceReadonly) = sro
  generalize ((t.getBinding .guest a.newRootGuest).map (·.mountFlags)).getD 0 = mf
  generalize ((t.getBinding .guest a.newRootGuest).map (·.sourceMountFlags)).getD 0 = smf
  have h3 := h2.setAttributes new.addr ro sro mf smf
  have hmounts3 := h2.mounts_setAttributes new.addr ro sro mf smf
  have hfresh3 : (t2.update new.addr (·.setAttributes ro sro mf smf)).fresh = t2.fresh := rfl
  generalize t2.update new.addr (·.setAttributes ro sro mf smf) = t3 at h3 hmounts3 hfresh3 ⊢
  have hroot3 : t3.mounts [] = some (new.setAttributes ro sro mf smf) := by
    rw [hmounts3, hmounts2, if_pos hnilcomps, Option.map_some, if_pos rfl]
  have hother3 : ∀ cs, cs ≠ [] → t3.mounts cs = t.mounts cs := by
    intro cs hcs
    have hcs' : comps ['/'] ≠ cs := hnilcomps ▸ Ne.symm hcs
    rw [hmounts3, hmounts2, if_neg hcs', hremoved cs hcs]
    cases hx : t.mounts cs with
    | none => rfl
    | some x =>
      have hxlt := h.mounts_addr_lt hx
      rw [Option.map_some, if_neg (by omega)]
  have hnew : t.fresh ≤ (new.setAttributes ro sro mf smf).addr := by
    change t.fresh ≤ new.addr
    omega
  cases hafter : a.putOldAfter with
  | none =>
    dsimp only
    exact ⟨h3, by omega, ⟨_, hroot3, hnew, hhost2⟩, by simp, fun cs hcs _ => hother3 cs hcs⟩
  | some after =>
    obtain ⟨q, hq, hput, rfl⟩ := (PivotRoot.putOldAfter_eq_some_iff ha).1 hafter
    have hqn : ∀ c ∈ q, IsName c := fun c hc =>
      comps_names ha.putOldGuest c (hput ▸ List.mem_append_right _ hc)
    have hp4 : IsCanonical root.host ∧ IsCanonical (render q) :=
      ⟨(h.canonical .guest root hrootmem).1.1, render_canonical hqn⟩
    obtain ⟨haddr4, hhost4, hfresh4⟩ := h3.insortBinding4_snd hp4 .none
    have hmounts4 := h3.mounts_insortBinding4 hp4 .none
    simp only [comps_render hqn] at hmounts4
    dsimp only
    refine ⟨h3.insortBinding4 hp4 .none, by omega, ⟨_, ?_, hnew, hhost2⟩, ?_, ?_⟩
    · rw [hmounts4, if_neg hq, hroot3]
    · intro after' hafter'
      rw [← Option.some.inj hafter', comps_render hqn]
      refine ⟨_, by rw [hmounts4, if_pos rfl], by omega, hhost4⟩
    · intro cs hcs hne
      have hqcs : q ≠ cs := comps_render hqn ▸ hne _ rfl
      rw [hmounts4, if_neg hqcs, hother3 cs hcs]

/-- **What the loop leaves at a place**: what the last binding writes there, or else
what was there and is not taken away. -/
theorem hosts_foldl_pivotStep (ha : a.Canonical) (l : List Binding) {t : Bindings}
    (h : t.WellFormed)
    (hl : ∀ b ∈ l, b.Canonical ∧ (b.addr = root.addr → b.guest = ['/']) ∧ b.addr < t.fresh) :
    (l.foldl (pivotStep root a) t).WellFormed ∧ ∀ cs,
      (l.foldl (pivotStep root a) t).hosts cs = (l.reverse.findSome? (a.placed cs)).or
        (((t.mounts cs).filter fun x => decide (∀ b ∈ l, a.removes b → b.addr ≠ x.addr)).map
          fun x => comps x.host) := by
  induction l generalizing t with
  | nil =>
    refine ⟨h, fun cs => ?_⟩
    simp only [List.foldl_nil, hosts]
    cases t.mounts cs with
    | none => rfl
    | some x => rw [Option.filter_some_pos (by simp)]; rfl
  | cons b l ih =>
    obtain ⟨hb, hroot, haddr⟩ := hl b (by simp)
    have hstep := edited_pivotStep h ha hb hroot haddr
    obtain ⟨hwf, hrest⟩ := ih hstep.wellFormed fun c hc => by
      obtain ⟨hcc, hcroot, hcaddr⟩ := hl c (by simp [hc])
      exact ⟨hcc, hcroot, lt_of_lt_of_le hcaddr hstep.fresh⟩
    refine ⟨hwf, fun cs => ?_⟩
    rw [List.foldl_cons, hrest, List.reverse_cons, List.findSome?_append, Option.or_assoc,
      List.findSome?_singleton]
    congr 1
    cases hplaced : a.placed cs b with
    | some host =>
      -- The new binding is none of those that the rest of the loop takes away.
      obtain ⟨x, hx, hnew, hhost⟩ :=
        hstep.written cs host (PivotRoot.placed_eq_some_iff.1 hplaced)
      rw [hx, Option.filter_some_pos, Option.map_some, hhost, Option.some_or]
      refine decide_eq_true fun c hc _ => ?_
      have hcaddr := (hl c (by simp [hc])).2.2
      omega
    | none =>
      rw [Option.none_or, hstep.kept cs fun host hplace => by
        rw [PivotRoot.placed_eq_some_iff.2 hplace] at hplaced
        exact absurd hplaced (by simp)]
      cases t.mounts cs with
      | none => rfl
      | some x =>
        congr 1
        rw [Option.filter_some, Option.filter_some]
        by_cases hremoves : a.removes b
        · by_cases hself : x.addr = b.addr
          · simp [hremoves, hself]
          · simp [hremoves, hself, Ne.symm hself, Option.filter_some]
        · simp [hremoves, Option.filter_some]

end Bindings

/-! ### The table it leaves -/

namespace PivotRoot

/-- The tree below the new root, with the new root mounted at its top. -/
def newTree (a : PivotRoot) (t : Bindings) (cs : List CStr) : Option (List CStr) :=
  if cs = [] then some (comps a.newRootHost) else t.hosts (a.newRoot ++ cs)

/-- The bindings of the old tree, which keep their old place. -/
def leftover (a : PivotRoot) (t : Bindings) (cs : List CStr) : Option (List CStr) :=
  if cs = [] ∨ (a.newRoot ≠ [] ∧ a.newRoot <+: cs) then none else t.hosts cs

/-- The old tree that is copied to the place `q`.  The new root and what is bound below
it have moved away, and the layer below the new root shows; what is bound at or below
`q` is not copied once more. -/
def oldTree (a : PivotRoot) (t : Bindings) (q cs : List CStr) : Option (List CStr) :=
  if cs ≠ [] ∧ cs = a.newRoot then
    (t.mounts cs).bind fun b => b.coveredBinding.map fun c => comps c.host
  else if (a.newRoot ≠ [] ∧ a.newRoot <+: cs) ∨ q <+: cs then none
  else t.hosts cs

end PivotRoot

private theorem findSome?_reverse_eq {α β : Type*} {f : α → Option β} {l : List α} {o : Option β}
    (h : ∀ v, (∃ b ∈ l, f b = some v) ↔ o = some v) : l.reverse.findSome? f = o := by
  cases hfind : l.reverse.findSome? f with
  | none =>
    rw [List.findSome?_eq_none_iff] at hfind
    cases ho : o with
    | none => rfl
    | some v =>
      obtain ⟨b, hb, hv⟩ := (h v).2 ho
      rw [hfind b (List.mem_reverse.2 hb)] at hv
      exact absurd hv (by simp)
  | some v =>
    obtain ⟨b, hb, hv⟩ := List.exists_of_findSome?_eq_some hfind
    exact ((h v).1 ⟨b, List.mem_reverse.1 hb, hv⟩).symm

namespace Bindings

section Table

variable {t : Bindings} {root : Binding} {a : PivotRoot}

private theorem pivot_snapshot (h : t.WellFormed) (hroot : t.mounts [] = some root)
    {t' : Bindings} (hfresh : t.fresh ≤ t'.fresh) :
    ∀ b ∈ t.guest, b.Canonical ∧ (b.addr = root.addr → b.guest = ['/']) ∧ b.addr < t'.fresh := by
  obtain ⟨hrootmem, hrootnil⟩ := h.mounts_eq_some_iff.1 hroot
  intro b hb
  refine ⟨h.canonical .guest b hb, fun haddr => ?_, ?_⟩
  · have hself := h.eq_of_addr (List.mem_append_left _ hb) (List.mem_append_left _ hrootmem) haddr
    rw [hself]
    exact (comps_eq_nil_iff (h.canonical .guest root hrootmem).1.2).1 hrootnil
  · have hlt := h.fresh _ (WellFormed.addr_mem (List.mem_append_left _ hb))
    omega

/-- A binding of the old table that keeps its place survives unless it moves. -/
private theorem filter_kept (h : t.WellFormed) (cs : List CStr) :
    ((t.mounts cs).filter fun x => decide (∀ b ∈ t.guest, a.removes b → b.addr ≠ x.addr)).map
        (fun x => comps x.host) =
      if a.newRoot ≠ [] ∧ a.newRoot <+: cs then none else t.hosts cs := by
  rw [hosts]
  cases hx : t.mounts cs with
  | none => simp
  | some x =>
    obtain ⟨hxmem, hxcs⟩ := h.mounts_eq_some_iff.1 hx
    have hremoves : (∀ b ∈ t.guest, a.removes b → b.addr ≠ x.addr) ↔
        ¬ (a.newRoot ≠ [] ∧ a.newRoot <+: cs) := by
      rw [← hxcs]
      constructor
      · intro hall hr
        exact hall x hxmem hr rfl
      · intro hr b hb hbr haddr
        have hself := h.eq_of_addr (List.mem_append_left _ hb) (List.mem_append_left _ hxmem) haddr
        exact hr (hself ▸ hbr)
    rw [Option.filter_some]
    by_cases hr : a.newRoot ≠ [] ∧ a.newRoot <+: cs
    · rw [if_pos hr, if_neg fun hd => (hremoves.1 (of_decide_eq_true hd)) hr, Option.map_none]
    · rw [if_neg hr, if_pos (decide_eq_true (hremoves.2 hr))]

/-- What is written during the call is not taken away. -/
private theorem filter_new (h : t.WellFormed) {x : Binding} (hx : t.fresh ≤ x.addr) :
    ((some x).filter fun x => decide (∀ b ∈ t.guest, a.removes b → b.addr ≠ x.addr)).map
        (fun x => comps x.host) = some (comps x.host) := by
  rw [Option.filter_some, if_pos, Option.map_some]
  refine decide_eq_true fun b hb _ => ?_
  have hlt := h.fresh _ (WellFormed.addr_mem (List.mem_append_left _ hb))
  omega

/-- **The places outside the old tree's new one.** -/
theorem hosts_pivotRoot_new (h : t.WellFormed) (ha : a.Canonical) (hroot : t.mounts [] = some root)
    (hout : ∀ after, a.putOldAfter = some after → ¬ comps after <+: cs) :
    (t.pivotRoot root a).hosts cs = (a.newTree t cs).or (a.leftover t cs) := by
  obtain ⟨hwf, hfresh, ⟨x, hx, hxnew, hxhost⟩, -, hkeep⟩ := mounts_pivotStart h ha hroot
  have hfold := (hosts_foldl_pivotStep ha t.guest hwf (pivot_snapshot h hroot hfresh)).2 cs
  rw [pivotRoot, hfold]
  have hplaced : ∀ v, (∃ b ∈ t.guest, a.placed cs b = some v) ↔
      (if a.newRoot ≠ [] ∧ cs ≠ [] then t.hosts (a.newRoot ++ cs) else none) = some v := by
    intro v
    constructor
    · intro hb
      obtain ⟨b, hb, hv⟩ := hb
      rw [PivotRoot.placed_eq_some_iff, PivotRoot.place] at hv
      split at hv
      · simp at hv
      · split at hv
        · obtain ⟨after, hafter, hv⟩ := Option.bind_eq_some_iff.1 hv
          obtain ⟨covered, -, hv⟩ := Option.bind_eq_some_iff.1 hv
          split at hv
          · obtain ⟨hcs, -⟩ := Prod.mk.inj (Option.some.inj hv)
            exact absurd (hcs ▸ List.prefix_append _ _) (hout after hafter)
          · simp at hv
        · rename_i hself
          split at hv
          · rename_i hmoves
            obtain ⟨hcs, hhost⟩ := Prod.mk.inj (Option.some.inj hv)
            have hsplit : comps b.guest = a.newRoot ++ cs := by
              rw [← hcs]
              exact List.prefix_append_drop hmoves.2
            have hne : cs ≠ [] := by
              intro hnil
              rw [hnil, List.append_nil] at hsplit
              exact hself hsplit
            rw [if_pos ⟨hmoves.1, hne⟩, hosts, h.mounts_eq_some_iff.2 ⟨hb, hsplit⟩,
              Option.map_some, hhost]
          · obtain ⟨after, hafter, hv⟩ := Option.bind_eq_some_iff.1 hv
            split at hv
            · simp at hv
            · obtain ⟨hcs, -⟩ := Prod.mk.inj (Option.some.inj hv)
              exact absurd (hcs ▸ List.prefix_append _ _) (hout after hafter)
    · intro hv
      split at hv
      · rename_i hne
        obtain ⟨b, hb, hhost⟩ := Option.map_eq_some_iff.1 hv
        obtain ⟨hbmem, hbcs⟩ := h.mounts_eq_some_iff.1 hb
        refine ⟨b, hbmem, ?_⟩
        have hmoves : a.removes b := ⟨hne.1, hbcs ▸ List.prefix_append _ _⟩
        rw [PivotRoot.placed_eq_some_iff, PivotRoot.place, if_neg (by simp [hbcs, hne.1]),
          if_neg (by simp [hbcs, hne.2]), if_pos hmoves, hbcs, List.drop_left, hhost]
      · simp at hv
  rw [findSome?_reverse_eq hplaced]
  by_cases hcs : cs = []
  · subst hcs
    rw [hx, filter_new h hxnew, hxhost]
    simp [PivotRoot.newTree]
  · have hat : ∀ after, a.putOldAfter = some after → comps after ≠ cs := fun after hafter heq =>
      hout after hafter (heq ▸ List.prefix_rfl)
    rw [hkeep cs hcs hat, filter_kept h, PivotRoot.newTree, if_neg hcs, PivotRoot.leftover]
    simp only [hcs, false_or]
    by_cases hn : a.newRoot = []
    · simp [hn]
    · rw [if_pos ⟨hn, hcs⟩]

/-- **The places of the old tree's new one.** -/
theorem hosts_pivotRoot_old (h : t.WellFormed) (ha : a.Canonical) (hroot : t.mounts [] = some root)
    {q : List CStr} (hafter : a.putOldAfter = some (render q))
    (hput : comps a.putOldGuest = a.newRoot ++ q) (hq : q ≠ []) (hcsn : ∀ c ∈ cs, IsName c)
    (hfit : (render (q ++ cs)).length < pathMax)
    (hfree : a.newRoot ≠ [] → t.hosts (a.newRoot ++ (q ++ cs)) = none) :
    (t.pivotRoot root a).hosts (q ++ cs) =
      (a.oldTree t q cs).or (a.leftover t (q ++ cs)) := by
  have hqn : ∀ c ∈ q, IsName c := fun c hc =>
    comps_names ha.putOldGuest c (hput ▸ List.mem_append_right _ hc)
  have hqc := comps_render hqn
  obtain ⟨hwf, hfresh, -, hold, hkeep⟩ := mounts_pivotStart h ha hroot
  have hfold := (hosts_foldl_pivotStep ha t.guest hwf (pivot_snapshot h hroot hfresh)).2 (q ++ cs)
  rw [pivotRoot, hfold]
  -- A binding on `cs` has an alias that fits.
  have hlong : ∀ b ∈ t.guest, comps b.guest = cs → cs ≠ [] →
      (render q ++ b.guest).length < pathMax := by
    intro b hb hbcs hne
    rw [← render_comps (h.canonical .guest b hb).1.2, hbcs, ← render_append hq hne]
    exact hfit
  have hplaced : ∀ v, (∃ b ∈ t.guest, a.placed (q ++ cs) b = some v) ↔
      (if cs = [] then none else a.oldTree t q cs) = some v := by
    intro v
    constructor
    · intro hb
      obtain ⟨b, hb, hv⟩ := hb
      rw [PivotRoot.placed_eq_some_iff, PivotRoot.place, hafter] at hv
      simp only [Option.bind_some, hqc] at hv
      split at hv
      · simp at hv
      · rename_i hne
        split at hv
        · rename_i hself
          obtain ⟨covered, hcov, hv⟩ := Option.bind_eq_some_iff.1 hv
          split at hv
          · obtain ⟨hcs, hhost⟩ := Prod.mk.inj (Option.some.inj hv)
            have hbcs := List.append_cancel_left hcs
            rw [hbcs] at hne hself
            rw [if_neg hne, PivotRoot.oldTree, if_pos ⟨hne, hself⟩,
              h.mounts_eq_some_iff.2 ⟨hb, hbcs⟩, Option.bind_some, hcov, Option.map_some, hhost]
          · simp at hv
        · rename_i hself
          split at hv
          · rename_i hmoves
            obtain ⟨hcs, -⟩ := Prod.mk.inj (Option.some.inj hv)
            have hsplit : comps b.guest = a.newRoot ++ (q ++ cs) := by
              rw [← hcs]
              exact List.prefix_append_drop hmoves.2
            have hbound := hfree hmoves.1
            rw [hosts, h.mounts_eq_some_iff.2 ⟨hb, hsplit⟩] at hbound
            simp at hbound
          · rename_i hmoves
            split at hv
            · simp at hv
            · rename_i hguard
              obtain ⟨hcs, hhost⟩ := Prod.mk.inj (Option.some.inj hv)
              have hbcs := List.append_cancel_left hcs
              rw [PivotRoot.removes, hbcs] at hmoves
              rw [hbcs] at hne hself hguard
              rw [if_neg hne, PivotRoot.oldTree, if_neg fun hand => hself hand.2,
                if_neg fun hor => hor.elim hmoves fun hle => hguard (.inl hle), hosts,
                h.mounts_eq_some_iff.2 ⟨hb, hbcs⟩, Option.map_some, hhost]
    · intro hv
      split at hv
      · simp at hv
      · rename_i hne
        rw [PivotRoot.oldTree] at hv
        split at hv
        · rename_i hself
          obtain ⟨b, hb, hv⟩ := Option.bind_eq_some_iff.1 hv
          obtain ⟨covered, hcov, hhost⟩ := Option.map_eq_some_iff.1 hv
          obtain ⟨hbmem, hbcs⟩ := h.mounts_eq_some_iff.1 hb
          refine ⟨b, hbmem, ?_⟩
          rw [PivotRoot.placed_eq_some_iff, PivotRoot.place, hafter, if_neg (hbcs ▸ hne),
            if_pos (hbcs.trans hself.2), Option.bind_some, hcov, Option.bind_some,
            if_pos (hlong b hbmem hbcs hne), hqc, hbcs, hhost]
        · rename_i hself
          split at hv
          · simp at hv
          · rename_i hguard
            obtain ⟨b, hb, hhost⟩ := Option.map_eq_some_iff.1 hv
            obtain ⟨hbmem, hbcs⟩ := h.mounts_eq_some_iff.1 hb
            have hmoves : ¬ a.removes b := fun hr => hguard (.inl (hbcs ▸ hr))
            have hskip : ¬ (q <+: cs ∨ pathMax ≤ (render q ++ b.guest).length) := fun hor =>
              hor.elim (fun hle => hguard (.inr hle)) fun hle => by
                have hlt := hlong b hbmem hbcs hne
                omega
            refine ⟨b, hbmem, ?_⟩
            rw [PivotRoot.placed_eq_some_iff, PivotRoot.place, hafter, if_neg (hbcs ▸ hne),
              if_neg fun heq => hself ⟨hne, hbcs.symm.trans heq⟩, if_neg hmoves, Option.bind_some,
              hqc, hbcs, if_neg hskip, hhost]
  rw [findSome?_reverse_eq hplaced]
  by_cases hcs : cs = []
  · subst hcs
    obtain ⟨x, hx, hxnew, hxhost⟩ := hold _ hafter
    rw [hqc] at hx
    rw [if_pos rfl, List.append_nil, hx, filter_new h hxnew, hxhost, PivotRoot.oldTree,
      if_neg fun hand => hand.1 rfl, if_neg, hosts, hroot]
    · rfl
    · intro hor
      obtain ⟨hn, hle⟩ | hle := hor
      · exact hn (List.prefix_nil.1 hle)
      · exact hq (List.prefix_nil.1 hle)
  · have hne : q ++ cs ≠ [] := by simp [hq]
    have hat : ∀ after, a.putOldAfter = some after → comps after ≠ q ++ cs := by
      intro after hafter' heq
      rw [hafter, Option.some.injEq] at hafter'
      rw [← hafter', hqc] at heq
      exact hcs (List.append_right_eq_self.1 heq.symm)
    rw [if_neg hcs, hkeep _ hne hat, filter_kept h, PivotRoot.leftover]
    simp only [hne, false_or]

theorem wellFormed_pivotRoot (h : t.WellFormed) (ha : a.Canonical)
    (hroot : t.mounts [] = some root) : (t.pivotRoot root a).WellFormed := by
  obtain ⟨hwf, hfresh, -⟩ := mounts_pivotStart h ha hroot
  exact (hosts_foldl_pivotStep ha t.guest hwf (pivot_snapshot h hroot hfresh)).1

/-- **A name outside the old tree's new place** is resolved below the new root, if no
binding of the old tree is in front of what moved there. -/
theorem guestView_pivotRoot_new (h : t.WellFormed) (ha : a.Canonical)
    (hroot : t.mounts [] = some root) {path : CStr} (hpath : IsCanonical path)
    (hout : ∀ after, a.putOldAfter = some after → ¬ comps after <+: comps path)
    (hleft : ∀ cs, cs <+: comps path → a.leftover t cs ≠ none →
      ∃ ds, cs <+: ds ∧ ds <+: comps path ∧ a.newTree t ds ≠ none) :
    (t.pivotRoot root a).guestView path = resolve (a.newTree t) (comps path) := by
  have hwf' := wellFormed_pivotRoot h ha hroot
  rw [hwf'.guestView_eq hpath, ← resolve_or hleft]
  refine resolve_congr fun cs hcs => ?_
  exact hosts_pivotRoot_new h ha hroot fun after hafter hle => hout after hafter (hle.trans hcs)

/-- With the host path of the new root the names below it are resolved as before. -/
theorem resolve_newTree (h : t.WellFormed) (ha : a.Canonical)
    (hhost : t.guestView a.newRootGuest = some (comps a.newRootHost)) {path : CStr}
    (hpath : IsCanonical path) :
    resolve (a.newTree t) (comps path) = t.guestView (render (a.newRoot ++ comps path)) := by
  have hnames : ∀ c ∈ a.newRoot ++ comps path, IsName c := fun c hc =>
    (List.mem_append.1 hc).elim (comps_names ha.newRootGuest c) (comps_names hpath c)
  rw [h.guestView_eq ha.newRootGuest] at hhost
  rw [h.guestView_eq (render_canonical hnames), comps_render hnames]
  exact (resolve_append hhost _).symm

/-- **A name below the old tree's new place** is resolved in what is left of the old
tree and what was bound there. -/
theorem guestView_pivotRoot_old (h : t.WellFormed) (ha : a.Canonical)
    (hroot : t.mounts [] = some root) {q : List CStr} (hcsn : ∀ c ∈ cs, IsName c)
    (hafter : a.putOldAfter = some (render q)) (hput : comps a.putOldGuest = a.newRoot ++ q)
    (hq : q ≠ []) (hfit : (render (q ++ cs)).length < pathMax)
    (hfree : ∀ ds, ds <+: cs → a.newRoot ≠ [] → t.hosts (a.newRoot ++ (q ++ ds)) = none) :
    (t.pivotRoot root a).guestView (render (q ++ cs)) =
      resolve (fun ds => (a.oldTree t q ds).or (a.leftover t (q ++ ds))) cs := by
  have hwf' := wellFormed_pivotRoot h ha hroot
  have hnames : ∀ c ∈ q ++ cs, IsName c := by
    intro c hc
    obtain hc | hc := List.mem_append.1 hc
    · exact comps_names ha.putOldGuest c (hput ▸ List.mem_append_right _ hc)
    · exact hcsn c hc
  have hat : ∀ ds, ds <+: cs → (t.pivotRoot root a).hosts (q ++ ds) =
      (a.oldTree t q ds).or (a.leftover t (q ++ ds)) := by
    intro ds hds
    refine hosts_pivotRoot_old h ha hroot hafter hput hq (fun c hc => hcsn c (hds.subset hc)) ?_
      (hfree ds hds)
    obtain ⟨es, rfl⟩ := hds
    rw [render_of_ne (by simp [hq])] at hfit ⊢
    rw [← List.append_assoc, Segments.flat_append, List.length_append] at hfit
    omega
  have hroot' : (t.pivotRoot root a).hosts q = some (comps root.host) := by
    have hq' := hat [] List.nil_prefix
    rw [List.append_nil] at hq'
    rw [hq', PivotRoot.oldTree, if_neg fun hand => hand.1 rfl, if_neg, hosts, hroot]
    · rfl
    · intro hor
      obtain ⟨hn, hle⟩ | hle := hor
      · exact hn (List.prefix_nil.1 hle)
      · exact hq (List.prefix_nil.1 hle)
  rw [hwf'.guestView_eq (render_canonical hnames), comps_render hnames,
    resolve_append_of_mounted hroot']
  exact resolve_congr hat

end Table

end Bindings

/-- The paths of a call that goes on. -/
theorem pivotPaths_eq_some {w : PathWorld} {c : DirfdCache} {newRootUser putOldUser : CStr}
    (h : pivotPaths w c newRootUser putOldUser = some (a, root)) :
    w.tracee.fs.bindings.getBinding .guest ['/'] = some root ∧
      emulatePivotRoot w c newRootUser putOldUser = w.tracee.fs.bindings.pivotRoot root a := by
  refine ⟨?_, by simp only [emulatePivotRoot, h]⟩
  simp only [pivotPaths] at h
  repeat' split at h
  all_goals first
    | (obtain ⟨-, rfl⟩ := Prod.mk.inj (Option.some.inj h); assumption)
    | simp at h

/-- **The view after `pivot_root`.**  A name that is not below the old root's new place
is what it was below the new root, and a name below that place is what it was in the
old tree without the new root; in either case if no binding that keeps its old place,
and no binding that moves to the old root's place, lies on the name. -/
theorem emulatePivotRoot_guestView (w : PathWorld) (c : DirfdCache) (newRootUser putOldUser : CStr)
    (ht : w.tracee.fs.bindings.Reachable) {a : PivotRoot} {root : Binding}
    (hrun : pivotPaths w c newRootUser putOldUser = some (a, root)) (ha : a.Canonical)
    {path : CStr} (hpath : IsCanonical path) (hfit : path.length < pathMax) :
    ((∀ after, a.putOldAfter = some after → ¬ comps after <+: comps path) →
      (∀ cs, cs <+: comps path → a.leftover w.tracee.fs.bindings cs ≠ none →
        ∃ ds, cs <+: ds ∧ ds <+: comps path ∧ a.newTree w.tracee.fs.bindings ds ≠ none) →
      (emulatePivotRoot w c newRootUser putOldUser).guestView path =
          resolve (a.newTree w.tracee.fs.bindings) (comps path) ∧
        (w.tracee.fs.bindings.guestView a.newRootGuest = some (comps a.newRootHost) →
          (emulatePivotRoot w c newRootUser putOldUser).guestView path =
            w.tracee.fs.bindings.guestView (render (a.newRoot ++ comps path)))) ∧
    (∀ after s, a.putOldAfter = some after → comps path = comps after ++ s →
      (∀ ds, ds <+: s → a.newRoot ≠ [] →
        w.tracee.fs.bindings.hosts (a.newRoot ++ (comps after ++ ds)) = none) →
      (emulatePivotRoot w c newRootUser putOldUser).guestView path =
          resolve (fun ds => (a.oldTree w.tracee.fs.bindings (comps after) ds).or
            (a.leftover w.tracee.fs.bindings (comps after ++ ds))) s ∧
        ((∀ ds, ds <+: s → ds ≠ [] →
            ((a.newRoot ≠ [] ∧ a.newRoot <+: ds) ∨ comps after <+: ds →
              w.tracee.fs.bindings.hosts ds = none) ∧
            w.tracee.fs.bindings.hosts (comps after ++ ds) = none) →
          (emulatePivotRoot w c newRootUser putOldUser).guestView path =
            w.tracee.fs.bindings.guestView (render s))) := by
  obtain ⟨hgetroot, hresult⟩ := pivotPaths_eq_some hrun
  have h := ht.wellFormed
  rw [hresult]
  generalize w.tracee.fs.bindings = t at h hgetroot ⊢
  have hroot : t.mounts [] = some root := by
    rw [h.getBinding_guest_eq (by decide)] at hgetroot
    change (deepest t.mounts []).map _ = _ at hgetroot
    rw [deepest_nil, Option.map_map] at hgetroot
    simpa using hgetroot
  constructor
  · intro hout hleft
    have hview := Bindings.guestView_pivotRoot_new h ha hroot hpath hout hleft
    refine ⟨hview, fun hhost => ?_⟩
    rw [hview, Bindings.resolve_newTree h ha hhost hpath]
  · intro after s hafter hsplit hfree
    obtain ⟨q, hq, hput, rfl⟩ := (PivotRoot.putOldAfter_eq_some_iff ha).1 hafter
    have hqn : ∀ c ∈ q, IsName c := fun c hc =>
      comps_names ha.putOldGuest c (hput ▸ List.mem_append_right _ hc)
    rw [comps_render hqn] at hsplit hfree ⊢
    have hsn : ∀ c ∈ s, IsName c := fun c hc =>
      comps_names hpath c (hsplit ▸ List.mem_append_right _ hc)
    have hself : path = render (q ++ s) := by rw [← hsplit, render_comps hpath]
    have hview := Bindings.guestView_pivotRoot_old h ha hroot hsn hafter hput hq
      (by rw [← hself]; exact hfit) hfree
    rw [← hself] at hview
    refine ⟨hview, fun hplain => ?_⟩
    rw [hview, h.guestView_eq (render_canonical hsn), comps_render hsn]
    refine resolve_congr fun ds hds => ?_
    by_cases hds' : ds = []
    · -- The old root itself.
      subst hds'
      have hnot : ¬ ((a.newRoot ≠ [] ∧ a.newRoot <+: []) ∨ q <+: []) := by
        simp only [List.prefix_nil]
        tauto
      rw [PivotRoot.oldTree, if_neg fun hand => hand.1 rfl, if_neg hnot, Bindings.hosts, hroot,
        Option.map_some, Option.some_or]
    · obtain ⟨hnone, hbelow⟩ := hplain ds hds hds'
      have hleft : a.leftover t (q ++ ds) = none := by
        rw [PivotRoot.leftover, hbelow, ite_self]
      rw [hleft, Option.or_none, PivotRoot.oldTree]
      split
      · rename_i hself
        have hunbound := hnone (.inl ⟨hself.2 ▸ hds', hself.2 ▸ List.prefix_rfl⟩)
        rw [hunbound]
        rw [Bindings.hosts, Option.map_eq_none_iff] at hunbound
        rw [hunbound, Option.bind_none]
      · split
        · rename_i hcond
          exact (hnone hcond).symm
        · rfl

/-- A guest root `/r` with a file system bound at `/n`. -/
def pivotWorld : PathWorld where
  tracee := traceeAfter [.insortBinding3 (str "/r") (str "/"), .insortBinding3 (str "/y") (str "/n")]
  getTracee := fun _ => none
  maxSymlinks := 40
  lstat := fun _ => .ok .directory
  readlink := fun _ => .error .einval
  notifyHostPath := id
  shouldSkipFileAccessDueToF2fsBug := fun _ => false
  unset := fun _ => .other
  notifyTranslatedPath := id
  procMapFile := fun _ => .error .enoent

/-- The call `pivot_root("/n", "/n/o")`. -/
def pivotCall : PivotRoot := ⟨str "/y", str "/n", str "/n/o"⟩

theorem pivotPaths_pivotWorld :
    ∃ root, pivotPaths pivotWorld .init (str "/n") (str "/n/o") = some (pivotCall, root) := by
  have hpaths : (pivotPaths pivotWorld .init (str "/n") (str "/n/o")).map (·.1) = some pivotCall := by
    decide +kernel
  obtain ⟨⟨a, root⟩, hrun, rfl⟩ := Option.map_eq_some_iff.1 hpaths
  exact ⟨root, hrun⟩

theorem pivotCall_canonical : pivotCall.Canonical := ⟨by decide, by decide, by decide⟩

theorem emulatePivotRoot_guestView_pivotWorld :
    (emulatePivotRoot pivotWorld .init (str "/n") (str "/n/o")).guestView (str "/f") =
        pivotWorld.tracee.fs.bindings.guestView (str "/n/f") ∧
      (emulatePivotRoot pivotWorld .init (str "/n") (str "/n/o")).guestView (str "/o/f") =
        pivotWorld.tracee.fs.bindings.guestView (str "/f") := by
  have ht : pivotWorld.tracee.fs.bindings.Reachable :=
    traceeAfter_reachable _ (by decide)
  obtain ⟨root, hrun⟩ := pivotPaths_pivotWorld
  have hafter : pivotCall.putOldAfter = some (str "/o") := by decide
  constructor
  · refine ((@emulatePivotRoot_guestView pivotWorld .init _ _ ht _ _ hrun pivotCall_canonical
      (str "/f") (by decide) (by decide)).1 ?_ ?_).2 (by decide +kernel)
    · intro after hafter'
      rw [hafter, Option.some.injEq] at hafter'
      subst hafter'
      decide
    · intro cs hcs
      have hall : ∀ cs ∈ (comps (str "/f")).inits,
          pivotCall.leftover pivotWorld.tracee.fs.bindings cs = none := by decide +kernel
      exact fun hne => absurd (hall cs ((List.mem_inits _ _).2 hcs)) hne
  · refine ((@emulatePivotRoot_guestView pivotWorld .init _ _ ht _ _ hrun pivotCall_canonical
      (str "/o/f") (by decide) (by decide)).2 (str "/o") [str "f"] hafter (by decide) ?_).2 ?_
    · intro ds hds _
      have hall : ∀ ds ∈ [str "f"].inits, pivotWorld.tracee.fs.bindings.hosts
          (pivotCall.newRoot ++ (comps (str "/o") ++ ds)) = none := by decide +kernel
      exact hall ds ((List.mem_inits _ _).2 hds)
    · intro ds hds hne
      have hall : ∀ ds ∈ [str "f"].inits, ds ≠ [] →
          ((pivotCall.newRoot ≠ [] ∧ pivotCall.newRoot <+: ds) ∨ comps (str "/o") <+: ds →
            pivotWorld.tracee.fs.bindings.hosts ds = none) ∧
          pivotWorld.tracee.fs.bindings.hosts (comps (str "/o") ++ ds) = none := by decide +kernel
      exact hall ds ((List.mem_inits _ _).2 hds) hne

/-- The place `/o/n` shows the directory that the new root covered, not the new root. -/
theorem exists_pivotRoot_elsewhere :
    ¬ ∀ (w : PathWorld) (c : DirfdCache) (newRootUser putOldUser : CStr) (a : PivotRoot)
      (root : Binding) (path after : CStr) (s : List CStr),
      w.tracee.fs.bindings.Reachable →
      pivotPaths w c newRootUser putOldUser = some (a, root) → a.Canonical →
      IsCanonical path → a.putOldAfter = some after → comps path = comps after ++ s →
      (emulatePivotRoot w c newRootUser putOldUser).guestView path =
        w.tracee.fs.bindings.guestView (render s) := by
  intro hall
  obtain ⟨root, hrun⟩ := pivotPaths_pivotWorld
  have hview := hall pivotWorld .init (str "/n") (str "/n/o") pivotCall root (str "/o/n") (str "/o")
    [str "n"] (traceeAfter_reachable _ (by decide)) hrun pivotCall_canonical (by decide) (by decide)
    (by decide)
  exact absurd hview (by decide +kernel)

end NeoProot
