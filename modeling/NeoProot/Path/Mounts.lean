import NeoProot.Path.Table

/-!
# The mount table under the list operations

What an insertion, a removal and a store do to `mounts`, and with it to every GUEST
lookup.

## Main definitions

* `Bindings.copyBinding` — a binding copied to another guest path.
* `Bindings.hosts`, `Bindings.guestView` — the host place of a guest path.
-/

namespace NeoProot
open MountTable

namespace Bindings

/-- The paths the bindings lead to, as a mount table of components. -/
def hosts (t : Bindings) (cs : List CStr) : Option (List CStr) :=
  (t.mounts cs).map fun b => comps b.host

/-- The host place that the GUEST lookup gives for a guest path: the host path of the
binding found, and the rest of the path behind it. -/
def guestView (t : Bindings) (path : CStr) : Option (List CStr) :=
  (t.getBinding .guest path).map fun b =>
    comps b.host ++ (comps path).drop (comps b.guest).length

/-- `copy_binding`. -/
def copyBinding (t : Bindings) (binding : Binding) (guestPath : CStr) : Bindings × Binding :=
  let (t, copy) := t.insortBinding4 binding.host guestPath binding.mountKind
  (t.update copy.addr (·.setAttributes binding.readonly binding.sourceReadonly binding.mountFlags
      binding.sourceMountFlags),
    copy.setAttributes binding.readonly binding.sourceReadonly binding.mountFlags
      binding.sourceMountFlags)

namespace WellFormed

variable {t : Bindings} {b : Binding} {cs : List CStr} {host guest path : CStr}

/-- **The GUEST lookup resolves names in the mount table.** -/
theorem guestView_eq (h : t.WellFormed) (hpath : IsCanonical path) :
    t.guestView path = resolve t.hosts (comps path) := by
  rw [guestView, h.getBinding_guest_eq hpath.1, resolve]
  change _ = (deepest (fun cs => (t.mounts cs).map fun b => comps b.host) (comps path)).map _
  rw [deepest_map]
  cases hdeep : deepest t.mounts (comps path) with
  | none => rfl
  | some found =>
    obtain ⟨cs, b⟩ := found
    have hb := (h.mounts_eq_some_iff.1 (deepest_eq_some_iff.1 hdeep).2.1).2
    simp only [Option.map_some, hb]

theorem mounts_insortBinding2 (h : t.WellFormed) (hb : b.Canonical)
    (hdisj : ∀ a ∈ b.chain, a ∉ t.addrs) (hnodup : b.chain.Nodup)
    (hfresh : ∀ a ∈ b.chain, a < t.fresh) (cs : List CStr) :
    (t.insortBinding2 b).1.mounts cs =
      if comps b.guest = cs then some (t.onTop b.withSubstitution) else t.mounts cs := by
  have hwf := h.insortBinding2 hb hdisj hnodup hfresh
  have haddr : b.addr ∈ b.chain := by simp [Binding.chain]
  obtain ⟨g₁, g₂, h₁, h₂, hg, -, -, hres⟩ := h.insortBinding2_eq hb (hdisj _ haddr)
  have hguest : (t.insortBinding2 b).1.guest = g₁ ++ t.onTop b.withSubstitution :: g₂ := by
    rw [hres]
  have hmem : ∀ x, x ∈ g₁ ++ g₂ ↔ x ∈ t.guest ∧ x.guest ≠ b.guest := by
    intro x
    rw [← hg, List.mem_filter, decide_eq_true_eq]
  by_cases hcs : comps b.guest = cs
  · rw [if_pos hcs, hwf.mounts_eq_some_iff, hguest]
    refine ⟨by simp, ?_⟩
    rw [onTop_guest]
    exact hcs
  · rw [if_neg hcs]
    ext x
    rw [hwf.mounts_eq_some_iff, h.mounts_eq_some_iff, hguest]
    constructor
    · intro hx
      obtain ⟨hx, hxcs⟩ := hx
      obtain hx | hx | hx : x ∈ g₁ ∨ x = t.onTop b.withSubstitution ∨ x ∈ g₂ := by simpa using hx
      · exact ⟨((hmem x).1 (by simp [hx])).1, hxcs⟩
      · rw [hx, onTop_guest] at hxcs
        exact absurd hxcs hcs
      · exact ⟨((hmem x).1 (by simp [hx])).1, hxcs⟩
    · intro hx
      obtain ⟨hx, hxcs⟩ := hx
      have hne : x.guest ≠ b.guest := fun heq => hcs (heq ▸ hxcs)
      refine ⟨?_, hxcs⟩
      obtain hx | hx := List.mem_append.1 ((hmem x).2 ⟨hx, hne⟩)
      · simp [hx]
      · simp [hx]

/-- A new binding is found on its place, and nothing else changes. -/
theorem mounts_insortBinding4 (h : t.WellFormed) (hp : IsCanonical host ∧ IsCanonical guest)
    (mountKind : BindingMountKind) (cs : List CStr) :
    (t.insortBinding4 host guest mountKind).1.mounts cs =
      if comps guest = cs then some (t.insortBinding4 host guest mountKind).2
      else t.mounts cs := by
  have hchain := newLayer_chain t host guest mountKind
  have hnot : ∀ a ∈ (t.newLayer host guest mountKind).chain, 
      a ∉ Bindings.addrs { t with fresh := t.fresh + 1 } := by
    intro a ha
    rw [hchain, List.mem_singleton] at ha
    exact ha ▸ h.fresh_not_mem
  have hmounts := h.allocate.mounts_insortBinding2 (newLayer_canonical hp) hnot
    (by rw [hchain]; exact List.nodup_singleton _)
    (by
      intro a ha
      rw [hchain, List.mem_singleton] at ha
      change a < t.fresh + 1
      omega) cs
  obtain ⟨_, _, _, _, -, -, -, hres⟩ := h.allocate.insortBinding2_eq (newLayer_canonical hp)
    (hnot t.fresh (by rw [hchain]; simp))
  have htop : (t.insortBinding4 host guest mountKind).2 = Bindings.onTop
      { t with fresh := t.fresh + 1 } (t.newLayer host guest mountKind).withSubstitution := by
    rw [Bindings.insortBinding4, hres]
  rw [htop]
  exact hmounts

/-- The binding that an insertion leaves in the table. -/
theorem insortBinding4_snd (h : t.WellFormed) (hp : IsCanonical host ∧ IsCanonical guest)
    (mountKind : BindingMountKind) :
    (t.insortBinding4 host guest mountKind).2.addr = t.fresh ∧
      (t.insortBinding4 host guest mountKind).2.host = host ∧
      (t.insortBinding4 host guest mountKind).1.fresh = t.fresh + 1 := by
  have hchain := newLayer_chain t host guest mountKind
  obtain ⟨_, _, _, _, -, -, -, hres⟩ := h.allocate.insortBinding2_eq
    (newLayer_canonical hp : (t.newLayer host guest mountKind).Canonical)
    (by
      intro hmem
      exact h.fresh_not_mem hmem)
  rw [Bindings.insortBinding4, hres]
  exact ⟨onTop_addr _ _, onTop_host _ _, rfl⟩

theorem mounts_removeBindingFromAllLists (h : t.WellFormed) (addr : ℕ) (cs : List CStr) :
    (t.removeBindingFromAllLists addr).mounts cs =
      (t.mounts cs).filter fun b => decide (b.addr ≠ addr) := by
  ext x
  rw [(h.removeBindingFromAllLists addr).mounts_eq_some_iff]
  change x ∈ t.guest.filter (fun b => decide (b.addr ≠ addr)) ∧ _ ↔ _
  rw [Option.filter_eq_some_iff, h.mounts_eq_some_iff, List.mem_filter]
  tauto

theorem mounts_setAttributes (h : t.WellFormed) (addr : ℕ) (r sr : Bool) (mf smf : UInt64)
    (cs : List CStr) :
    (t.update addr (·.setAttributes r sr mf smf)).mounts cs =
      (t.mounts cs).map fun b => if b.addr = addr then b.setAttributes r sr mf smf else b := by
  ext x
  change (t.update addr (·.setAttributes r sr mf smf)).mounts cs = some x ↔ _
  rw [(h.setAttributes addr r sr mf smf).mounts_eq_some_iff, Option.map_eq_some_iff]
  change x ∈ t.guest.map (fun b => if b.addr = addr then b.setAttributes r sr mf smf else b) ∧ _ ↔ _
  have hsame : ∀ b : Binding,
      (if b.addr = addr then b.setAttributes r sr mf smf else b).guest = b.guest := by
    intro b
    split <;> rfl
  constructor
  · intro hx
    obtain ⟨hx, hcs⟩ := hx
    obtain ⟨b, hb, rfl⟩ := List.mem_map.1 hx
    rw [hsame] at hcs
    exact ⟨b, h.mounts_eq_some_iff.2 ⟨hb, hcs⟩, rfl⟩
  · intro hx
    obtain ⟨b, hb, rfl⟩ := hx
    obtain ⟨hb, hcs⟩ := h.mounts_eq_some_iff.1 hb
    exact ⟨List.mem_map_of_mem hb, (congrArg comps (hsame b)).trans hcs⟩

theorem mounts_addr_lt (h : t.WellFormed) (hb : t.mounts cs = some b) : b.addr < t.fresh :=
  h.fresh _ (addr_mem (List.mem_append_left _ (h.mounts_eq_some_iff.1 hb).1))

theorem copyBinding (h : t.WellFormed) (hp : IsCanonical b.host ∧ IsCanonical guest) :
    (t.copyBinding b guest).1.WellFormed :=
  (h.insortBinding4 hp b.mountKind).setAttributes _ _ _ _ _

/-- **What `copy_binding` does to the mount table.** -/
theorem mounts_copyBinding (h : t.WellFormed) (hp : IsCanonical b.host ∧ IsCanonical guest) :
    (t.copyBinding b guest).1.fresh = t.fresh + 1 ∧
      (t.copyBinding b guest).2.addr = t.fresh ∧ (t.copyBinding b guest).2.host = b.host ∧
      ∀ cs, (t.copyBinding b guest).1.mounts cs =
        if comps guest = cs then some (t.copyBinding b guest).2 else t.mounts cs := by
  obtain ⟨haddr, hhost, hfresh⟩ := h.insortBinding4_snd hp b.mountKind
  have hmounts := h.mounts_insortBinding4 hp b.mountKind
  have hwf := h.insortBinding4 hp b.mountKind
  simp only [Bindings.copyBinding]
  refine ⟨hfresh, haddr, hhost, fun cs => ?_⟩
  rw [hwf.mounts_setAttributes, hmounts]
  by_cases hcs : comps guest = cs
  · simp only [if_pos hcs, Option.map_some, if_true]
  · simp only [if_neg hcs]
    cases hold : t.mounts cs with
    | none => rfl
    | some x =>
      have hx := h.mounts_addr_lt hold
      rw [Option.map_some, if_neg (by omega)]

end WellFormed
end Bindings
end NeoProot
