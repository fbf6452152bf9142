import NeoProot.Path.Table
import NeoProot.Path.Proc

/-!
# From host paths back to guest paths

`detranslatePath` finds the guest name of a host path.  The HOST lookup chooses a
binding by the host path alone, so the name it gives may lie below another
binding that hides it.  `detranslatePath_substituteBinding` says exactly when the
name leads back to the host path.

## Main definitions

* `detranslatePath` — the guest name of a host path.
* `Binding.ContinuedBy` — a binding exposes what another already leads to.
* `reportedThrough` — the binding a reported name goes through.
-/

namespace NeoProot
open MountTable

/-- `is_proc_path`. -/
def IsProcPath (s : CStr) : Prop := s.take 6 = str "/proc/"

instance (s : CStr) : Decidable (IsProcPath s) := inferInstanceAs (Decidable (_ = _))

/-- `get_path_binding`. -/
def Bindings.getPathBinding (t : Bindings) (side : Side) (path : CStr) : Option CStr :=
  (t.getBinding side path).map fun b => if side = .guest then b.guest else b.host

/-- `compare_paths(get_root(tracee), path)`.  A tracee has a root binding from its
start on. -/
def Bindings.compareRoot (t : Bindings) (path : CStr) : Comparison :=
  match t.getRoot with
  | none => .pathsAreNotComparable
  | some root => comparePaths root path

/-- `belongs_to_guestfs`. -/
def Bindings.belongsToGuestfs (t : Bindings) (hostPath : CStr) : Bool :=
  match t.compareRoot hostPath with
  | .pathsAreEqual | .path1IsPrefix => true
  | _ => false

namespace FileSystemNameSpace

/-- The alias is a leading part of the path that ends with a component. -/
def startsWithAlias (cwdAlias path : CStr) : Bool :=
  decide (cwdAlias <+: path) &&
    (decide (path[cwdAlias.length]? = none) || decide (path[cwdAlias.length]? = some '/'))

/-- Whether `normalize_cwd_alias_path` cuts the alias off the path. -/
def cutsAlias (fs : FileSystemNameSpace) (path : CStr) : Bool :=
  match fs.cwdAliasPrefix with
  | none => false
  | some cwdAlias =>
    if cwdAlias.length = 0 then false
    else if ¬ startsWithAlias cwdAlias path then false
    else
      -- Do not collapse a more-specific binding below the alias.
      match fs.bindings.getBinding .guest path with
      | none => false
      | some binding => decide (binding.guest = cwdAlias)

/-- `normalize_cwd_alias_path`: the value returned and the path. -/
def normalizeCwdAliasPath (fs : FileSystemNameSpace) (path : CStr) : ℕ × CStr :=
  match fs.cwdAliasPrefix with
  | none => (0, path)
  | some cwdAlias =>
    if ¬ fs.cutsAlias path then (0, path)
    else if path.length = cwdAlias.length then (2, ['/'])
    else (path.length - cwdAlias.length + 1, path.drop cwdAlias.length)

end FileSystemNameSpace

/-- The part of `detranslate_path` behind the referrer: the value returned and the
path. -/
def detranslateFollowing (fs : FileSystemNameSpace) (followBinding hasReferrer : Bool)
    (path : CStr) : Except Errno (ℕ × CStr) :=
  let t := fs.bindings
  match if followBinding then t.substituteBinding .host path else .error .enoent with
  | .ok (false, path) => .ok (0, path)
  | .ok (true, path) =>
    let (status, path) := fs.normalizeCwdAliasPath path
    .ok (if status ≠ 0 then status else path.length + 1, path)
  | .error _ =>
    match t.compareRoot path with
    | .path1IsPrefix =>
      let root := t.getRoot.getD []
      let newPath := path.drop (if root.length = 1 then 0 else root.length)
      .ok (newPath.length + 1, newPath)
    | .pathsAreEqual => .ok (2, ['/'])
    | _ => if hasReferrer then .ok (0, path) else .error .eperm

/-- `detranslate_path`: the value returned and the path. -/
def detranslatePath (tracee : Tracee) (getTracee : ℤ → Option Tracee) (path : CStr)
    (referrer : Option CStr) : Except Errno (ℕ × CStr) :=
  let fs := tracee.fs
  let t := fs.bindings
  if pathMax ≤ path.length then .error .enametoolong
  else if ¬ IsAbsolute path then .ok (0, path)
  else if IsProcPath path then .ok (path.length + 1, path)
  else
    match referrer with
    | none => detranslateFollowing fs true false path
    | some referrer =>
      if comparePaths (str "/proc/") referrer = .path1IsPrefix then
        match readlinkProc2 tracee getTracee referrer with
        | .error e => .error e
        | .ok (some procPath) => .ok (procPath.length + 1, procPath)
        | .ok none => detranslateFollowing fs true true path
      else if ¬ t.belongsToGuestfs referrer then
        match t.getPathBinding .host path, t.getPathBinding .host referrer with
        | some bTo, some bFrom =>
          detranslateFollowing fs (decide (comparePaths bTo bFrom = .pathsAreEqual)) true path
        | _, _ => detranslateFollowing fs true true path
      else detranslateFollowing fs true true path

namespace Binding

/-- The path `substitute_binding` puts in the place of the one it looks up. -/
def repl (b : Binding) : Side → CStr
  | .guest => b.host
  | _ => b.guest

/-- Where `c` is bound, the binding `b` above it already leads to what `c` is
bound to. -/
def ContinuedBy (b c : Binding) : Prop :=
  comps c.host = comps b.host ++ (comps c.guest).drop (comps b.guest).length

instance (b c : Binding) : Decidable (b.ContinuedBy c) := inferInstanceAs (Decidable (_ = _))

end Binding

namespace Bindings

/-- The rewriting `substitute_binding` makes of the path fits a path buffer. -/
def SubstitutionFits (t : Bindings) (side : Side) (path : CStr) : Prop :=
  match t.getBinding side path with
  | none => True
  | some b =>
    b.needSubstitution = false ∨
      (substitutePathPrefix path (b.ref side).length (b.repl side)).2.isOk = true

instance (t : Bindings) (side : Side) (path : CStr) : Decidable (t.SubstitutionFits side path) := by
  unfold SubstitutionFits
  split <;> infer_instance

namespace WellFormed

variable {t : Bindings} {b : Binding} {path : CStr}

theorem getBinding_guest_iff (h : t.WellFormed) (hpath : IsCanonical path) :
    t.getBinding .guest path = some b ↔
      b ∈ t.guest ∧ comps b.guest <+: comps path ∧
        ∀ c ∈ t.guest, comps c.guest <+: comps path → comps c.guest <+: comps b.guest := by
  rw [h.getBinding_guest_eq hpath.1, Option.map_eq_some_iff]
  constructor
  · intro hb
    obtain ⟨⟨cs, b'⟩, hdeep, rfl⟩ := hb
    rw [deepest_eq_some_iff, h.mounts_eq_some_iff] at hdeep
    obtain ⟨hcs, ⟨hb, rfl⟩, hbelow⟩ := hdeep
    refine ⟨hb, hcs, fun c hc hcp => ?_⟩
    obtain hle | hle := List.prefix_or_prefix_of_prefix hcp hcs
    · exact hle
    · by_cases heq : comps b'.guest = comps c.guest
      · exact heq ▸ List.prefix_rfl
      · exact absurd rfl (mounts_eq_none_iff.1 (hbelow _ hcp ⟨hle, heq⟩) c hc)
  · intro hb
    obtain ⟨hb, hbp, hbelow⟩ := hb
    refine ⟨(comps b.guest, b), ?_, rfl⟩
    rw [deepest_eq_some_iff, h.mounts_eq_some_iff]
    refine ⟨hbp, ⟨hb, rfl⟩, fun ds hds hlt => mounts_eq_none_iff.2 fun c hc hcds => ?_⟩
    have hle := (hbelow c hc (hcds ▸ hds)).length_le
    have hlt' := hlt.length_lt
    rw [hcds] at hle
    omega

theorem getBinding_mem (h : t.WellFormed) {side : Side} (hside : side ≠ .pending)
    (hpath : IsAbsolute path) (hb : t.getBinding side path = some b) :
    b ∈ t.guest ∧ b.key side <+: comps path := by
  cases side with
  | pending => exact absurd rfl hside
  | guest =>
    rw [h.getBinding_guest_eq hpath, Option.map_eq_some_iff] at hb
    obtain ⟨⟨cs, b'⟩, hdeep, rfl⟩ := hb
    rw [deepest_eq_some_iff, h.mounts_eq_some_iff] at hdeep
    exact ⟨hdeep.2.1.1, hdeep.2.1.2 ▸ hdeep.1⟩
  | host =>
    rw [getBinding_host_eq h.absolute hpath] at hb
    refine ⟨h.perm.mem_iff.2 (List.mem_of_find?_eq_some hb), ?_⟩
    simpa using List.find?_some hb

/-- **What `substitute_binding` does to a canonical path.**  The components of the
binding found are replaced by those of its other path. -/
theorem substituteBinding_eq (h : t.WellFormed) {side : Side} (hside : side ≠ .pending)
    (hpath : IsCanonical path) (hb : t.getBinding side path = some b)
    (hfit : t.SubstitutionFits side path) :
    t.substituteBinding side path = .ok (b.needSubstitution,
      render (comps (b.repl side) ++ (comps path).drop (b.key side).length)) := by
  obtain ⟨hbt, rest, hrest⟩ := h.getBinding_mem hside hpath.1 hb
  have hbc := (h.canonical .guest b hbt).1
  have hneed := h.substitution b hbt
  have href : IsCanonical (b.ref side) := by
    cases side with
    | pending => exact absurd rfl hside
    | guest => exact hbc.2
    | host => exact hbc.1
  have hrepl : IsCanonical (b.repl side) := by
    cases side with
    | pending => exact absurd rfl hside
    | guest => exact hbc.1
    | host => exact hbc.2
  have hpair : (if side = .guest then (b.guest, b.host) else (b.host, b.guest)) =
      (b.ref side, b.repl side) := by
    cases side with
    | pending => exact absurd rfl hside
    | guest => rfl
    | host => rfl
  have hdrop : (comps path).drop (b.key side).length = rest := by
    rw [← hrest, List.drop_left]
  rw [hdrop]
  simp only [SubstitutionFits, hb] at hfit
  simp only [substituteBinding, hb, hpair]
  cases hn : b.needSubstitution with
  | false =>
    have heq : b.repl side = b.ref side := by
      rw [hn] at hneed
      have hpaths : b.host = b.guest := by simpa using hneed.symm
      cases side with
      | pending => exact absurd rfl hside
      | guest => exact hpaths
      | host => exact hpaths.symm
    have hself : comps (b.repl side) ++ rest = comps path := by
      rw [heq]
      exact hrest
    rw [hself, render_comps hpath]
    rfl
  | true =>
    have hne : comps (b.ref side) ≠ comps (b.repl side) := by
      rw [hn] at hneed
      have hpaths : b.host ≠ b.guest := by simpa using hneed.symm
      intro heq
      have hp := canonical_ext href hrepl heq
      cases side with
      | pending => exact absurd rfl hside
      | guest => exact hpaths hp.symm
      | host => exact hpaths hp
    have hnames : ∀ c ∈ rest, IsName c := fun c hc =>
      comps_names hpath c (hrest ▸ List.mem_append_right _ hc)
    have hsub := substitutePathPrefix_eq (comps_names href) (comps_names hrepl) hnames hne
    have hpath' : render (comps (b.ref side) ++ rest) = path := by
      rw [← render_comps hpath, ← hrest]
      rfl
    rw [hpath', render_comps href, render_comps hrepl] at hsub
    rw [hn] at hfit
    have hok := hfit.resolve_left (by simp)
    rw [hsub] at hok ⊢
    split at hok
    · simp [Except.isOk, Except.toBool] at hok
    · rename_i hfits
      rw [if_neg hfits]
      rfl

theorem exists_getBinding_guest (h : t.WellFormed) (hpath : IsCanonical path) (hb : b ∈ t.guest)
    (hbp : comps b.guest <+: comps path) : ∃ c, t.getBinding .guest path = some c := by
  rw [h.getBinding_guest_eq hpath.1]
  cases hdeep : deepest t.mounts (comps path) with
  | none => exact absurd rfl (mounts_eq_none_iff.1 (deepest_eq_none_iff.1 hdeep _ hbp) b hb)
  | some found => exact ⟨found.2, rfl⟩

theorem exists_getBinding_host (h : t.WellFormed) (hpath : IsCanonical path) (hb : b ∈ t.guest)
    (hbp : comps b.host <+: comps path) : ∃ c, t.getBinding .host path = some c := by
  rw [getBinding_host_eq h.absolute hpath.1]
  cases hfind : t.host.find? fun b => decide (b.key .host <+: comps path) with
  | none =>
    have hnot := List.find?_eq_none.1 hfind b (h.perm.mem_iff.1 hb)
    rw [decide_eq_true_eq] at hnot
    exact absurd hbp hnot
  | some c => exact ⟨c, rfl⟩

/-- A name below the guest path of `e` denotes what lies at the same place below
its host path exactly when the binding found for the name continues `e`. -/
theorem substituteBinding_iff_continuedBy (h : t.WellFormed) {e : Binding} (he : e ∈ t.guest)
    {rest : List CStr} (hrest : ∀ c ∈ rest, IsName c)
    (hfit : t.SubstitutionFits .guest (render (comps e.guest ++ rest))) :
    (∃ s, t.substituteBinding .guest (render (comps e.guest ++ rest)) =
        .ok (s, render (comps e.host ++ rest))) ↔
      ∀ c, t.getBinding .guest (render (comps e.guest ++ rest)) = some c → e.ContinuedBy c := by
  have hec := (h.canonical .guest e he).1
  have hguest : ∀ c ∈ comps e.guest ++ rest, IsName c := fun c hc =>
    (List.mem_append.1 hc).elim (comps_names hec.2 c) (hrest c)
  have hhost : ∀ c ∈ comps e.host ++ rest, IsName c := fun c hc =>
    (List.mem_append.1 hc).elim (comps_names hec.1 c) (hrest c)
  have hcan := render_canonical hguest
  have hcomps := comps_render hguest
  have hpre : comps e.guest <+: comps (render (comps e.guest ++ rest)) := by
    rw [hcomps]
    exact List.prefix_append _ _
  obtain ⟨c, hc⟩ := h.exists_getBinding_guest hcan he hpre
  obtain ⟨hct, hcp, hdeep⟩ := (h.getBinding_guest_iff hcan).1 hc
  -- `c` lies between `e` and the name.
  obtain ⟨mid, hmid⟩ := hdeep e he hpre
  rw [hcomps, ← hmid, List.prefix_append_right_inj] at hcp
  obtain ⟨tail, rfl⟩ := hcp
  have hcc := (h.canonical .guest c hct).1
  have hland := h.substituteBinding_eq (by simp) hcan hc hfit
  have hdrop : (comps e.guest ++ (mid ++ tail)).drop (comps c.guest).length = tail := by
    rw [← hmid, ← List.append_assoc, List.drop_left]
  have hres : ∀ s, t.substituteBinding .guest (render (comps e.guest ++ (mid ++ tail))) =
      .ok (s, render (comps e.host ++ (mid ++ tail))) ↔
      s = c.needSubstitution ∧ comps c.host = comps e.host ++ mid := by
    intro s
    have htail : ∀ x ∈ comps c.host ++ tail, IsName x := fun x hx =>
      (List.mem_append.1 hx).elim (comps_names hcc.1 x) fun hx => hrest x (by simp [hx])
    rw [hland, hcomps]
    change Except.ok (c.needSubstitution, render (comps c.host ++ _)) = _ ↔ _
    rw [show c.key .guest = comps c.guest from rfl, hdrop, Except.ok.injEq, Prod.mk.injEq,
      eq_comm (a := c.needSubstitution)]
    refine and_congr_right fun _ => ?_
    constructor
    · intro heq
      have hlists := congrArg comps heq
      rw [comps_render htail, comps_render hhost, ← List.append_assoc] at hlists
      exact List.append_cancel_right hlists
    · intro heq
      rw [heq, List.append_assoc]
  have hcont : e.ContinuedBy c ↔ comps c.host = comps e.host ++ mid := by
    rw [Binding.ContinuedBy, ← hmid, List.drop_left]
  simp only [hres, hc, Option.some.injEq, forall_eq', hcont]
  simp

end WellFormed
end Bindings

namespace FileSystemNameSpace

/-- The recorded alias is the one `refresh_cwd_alias_prefix` records, and what is
bound there is the host directory of the guest root. -/
def AliasVerified (fs : FileSystemNameSpace) : Prop :=
  ∀ cwdAlias, fs.cwdAliasPrefix = some cwdAlias → cwdAlias = str "/oldroot" ∧
    ∀ b, fs.bindings.getBinding .guest cwdAlias = some b → b.guest = cwdAlias →
      ∃ root, fs.bindings.getBinding .guest ['/'] = some root ∧
        comparePaths b.host root.host = .pathsAreEqual

/-- The binding the name of a host path goes through: the one its HOST lookup
finds, or the root binding where the alias of the old root is cut off.  A name
that another binding turns into one below the alias goes through neither. -/
def reportedThrough (fs : FileSystemNameSpace) (path : CStr) : Option Binding :=
  match fs.bindings.getBinding .host path, fs.bindings.substituteBinding .host path with
  | some b, .ok (true, name) =>
    if ¬ fs.cutsAlias name then some b
    else if fs.cwdAliasPrefix = some b.guest then fs.bindings.getBinding .guest ['/'] else none
  | some b, .ok (false, _) => some b
  | _, _ => none

variable {fs : FileSystemNameSpace} {path : CStr}

/-- What the alias leaves of a path that it is cut off. -/
theorem normalizeCwdAliasPath_of_cut (hcut : fs.cutsAlias path = true) :
    ∃ cwdAlias b, fs.cwdAliasPrefix = some cwdAlias ∧ cwdAlias <+: path ∧
      fs.bindings.getBinding .guest path = some b ∧ b.guest = cwdAlias ∧
      fs.normalizeCwdAliasPath path =
        if path.length = cwdAlias.length then (2, ['/'])
        else (path.length - cwdAlias.length + 1, path.drop cwdAlias.length) := by
  cases halias : fs.cwdAliasPrefix with
  | none => simp [cutsAlias, halias] at hcut
  | some cwdAlias =>
    have hcut' := hcut
    simp only [cutsAlias, halias] at hcut'
    split at hcut'
    · exact absurd hcut' (by simp)
    · split at hcut'
      · exact absurd hcut' (by simp)
      · rename_i hstart
        rw [not_not, startsWithAlias, Bool.and_eq_true, decide_eq_true_eq] at hstart
        split at hcut'
        · exact absurd hcut' (by simp)
        · rename_i b hb
          refine ⟨cwdAlias, b, rfl, hstart.1, hb, by simpa using hcut', ?_⟩
          simp only [normalizeCwdAliasPath, halias, hcut, not_true_eq_false, if_false]

theorem normalizeCwdAliasPath_of_not_cut (hcut : fs.cutsAlias path = false) :
    fs.normalizeCwdAliasPath path = (0, path) := by
  simp only [normalizeCwdAliasPath, hcut]
  split <;> simp

end FileSystemNameSpace

/-- A path in a path buffer stays in it. -/
theorem length_substitutePathPrefix_lt {path : CStr} (hpath : path.length < pathMax) (n : ℕ)
    (newPrefix : CStr) : (substitutePathPrefix path n newPrefix).1.length < pathMax := by
  have hbuffer : ∀ result : CStr, (if pathMax ≤ result.length then (path, .error .enametoolong)
      else (result, .ok result.length) : CStr × Except Errno ℕ).1.length < pathMax := by
    intro result
    split <;> rename_i hlen
    · exact hpath
    · exact Nat.lt_of_not_le hlen
  simp only [substitutePathPrefix]
  split
  · split
    · change 1 < pathMax
      decide
    · rw [List.length_drop]
      omega
  · split
    · exact hbuffer _
    · exact hbuffer _

theorem Bindings.length_substituteBinding_lt {t : Bindings} {side : Side} {path path' : CStr}
    {s : Bool} (hpath : path.length < pathMax)
    (hsub : t.substituteBinding side path = .ok (s, path')) : path'.length < pathMax := by
  simp only [substituteBinding] at hsub
  cases hb : t.getBinding side path with
  | none => simp [hb] at hsub
  | some b =>
    simp only [hb] at hsub
    split at hsub
    · obtain ⟨-, rfl⟩ := Prod.mk.inj (Except.ok.inj hsub)
      exact hpath
    · obtain ⟨-, rfl⟩ := Prod.mk.inj (Except.ok.inj hsub)
      exact length_substitutePathPrefix_lt hpath _ _

namespace Bindings

/-- The HOST lookup of a path and what it makes of it: the part below the host path of the
binding, below its guest path. -/
structure HostNamed (t : Bindings) (path : CStr) (b : Binding) (rest : List CStr) : Prop where
  mem : b ∈ t.guest
  lookup : t.getBinding .host path = some b
  names : ∀ c ∈ rest, IsName c
  below : comps path = comps b.host ++ rest
  path_eq : path = render (comps b.host ++ rest)
  name : t.substituteBinding .host path =
    .ok (b.needSubstitution, render (comps b.guest ++ rest))

variable {t : Bindings} {g h : CStr} {s : Bool}

/-- The host path of a guest path is below the host path of a binding. -/
theorem WellFormed.host_canonical (hwf : t.WellFormed) (hg : IsCanonical g)
    (hsub : t.substituteBinding .guest g = .ok (s, h)) (hfit : t.SubstitutionFits .guest g) :
    IsCanonical h ∧ ∃ b ∈ t.guest, comps b.host <+: comps h := by
  obtain ⟨b, hb⟩ : ∃ b, t.getBinding .guest g = some b := by
    cases hb : t.getBinding .guest g with
    | none => simp [substituteBinding, hb] at hsub
    | some b => exact ⟨b, rfl⟩
  obtain ⟨hbt, -⟩ := hwf.getBinding_mem (by simp) hg.1 hb
  have hland := hwf.substituteBinding_eq (by simp) hg hb hfit
  rw [hsub, Except.ok.injEq, Prod.mk.injEq] at hland
  have hbc := (hwf.canonical .guest b hbt).1
  have hnames : ∀ c ∈ comps b.host ++ (comps g).drop (b.key .guest).length, IsName c :=
    fun c hc => (List.mem_append.1 hc).elim (comps_names hbc.1 c)
      fun hc => comps_names hg c (List.mem_of_mem_drop hc)
  refine ⟨hland.2 ▸ render_canonical hnames, b, hbt, ?_⟩
  rw [hland.2]
  change comps b.host <+: comps (render (comps b.host ++ _))
  rw [comps_render hnames]
  exact List.prefix_append _ _

/-- So some binding is found for it, and gives it a name. -/
theorem WellFormed.exists_hostNamed (hwf : t.WellFormed) {b₀ : Binding} (hh : IsCanonical h)
    (hb₀ : b₀ ∈ t.guest) (hbelow : comps b₀.host <+: comps h)
    (hfit : t.SubstitutionFits .host h) : ∃ b rest, t.HostNamed h b rest := by
  obtain ⟨b, hb⟩ := hwf.exists_getBinding_host hh hb₀ hbelow
  obtain ⟨hbt, rest, hrest⟩ := hwf.getBinding_mem (by simp) hh.1 hb
  have hname := hwf.substituteBinding_eq (by simp) hh hb hfit
  rw [← hrest, List.drop_left] at hname
  refine ⟨b, rest, hbt, hb, fun c hc => ?_, hrest.symm, ?_, hname⟩
  · exact comps_names hh c (hrest ▸ List.mem_append_right _ hc)
  · rw [← render_comps hh, ← hrest]
    rfl

end Bindings

namespace FileSystemNameSpace

variable {fs : FileSystemNameSpace} {h : CStr} {b e : Binding} {rest : List CStr}

/-- The name that the HOST lookup gives loses the alias. -/
def CutsName (fs : FileSystemNameSpace) (b : Binding) (rest : List CStr) : Prop :=
  b.needSubstitution = true ∧ fs.cutsAlias (render (comps b.guest ++ rest)) = true

/-- The alias stays. -/
theorem detranslateFollowing_of_not_cut (hb : fs.bindings.HostNamed h b rest)
    (hcut : ¬ fs.CutsName b rest) :
    (∃ n, detranslateFollowing fs true false h = .ok (n, render (comps b.guest ++ rest))) ∧
      fs.reportedThrough h = some b := by
  have hnot : b.needSubstitution = true →
      fs.cutsAlias (render (comps b.guest ++ rest)) = false := fun hneed =>
    Bool.eq_false_iff.2 fun htrue => hcut ⟨hneed, htrue⟩
  simp only [detranslateFollowing, reportedThrough, hb.lookup, hb.name, if_true]
  cases hneed : b.needSubstitution with
  | false => exact ⟨⟨_, rfl⟩, rfl⟩
  | true =>
    rw [hneed] at hnot
    simp [normalizeCwdAliasPath_of_not_cut (hnot rfl), hnot rfl]

/-- The alias is cut off. -/
theorem detranslateFollowing_of_cut (hb : fs.bindings.HostNamed h b rest)
    (hcut : fs.CutsName b rest) :
    (∃ n, detranslateFollowing fs true false h =
        .ok (n, (fs.normalizeCwdAliasPath (render (comps b.guest ++ rest))).2)) ∧
      fs.reportedThrough h = if fs.cwdAliasPrefix = some b.guest then
        fs.bindings.getBinding .guest ['/'] else none := by
  simp only [detranslateFollowing, reportedThrough, hb.lookup, hb.name, hcut.1, hcut.2, if_true,
    not_true_eq_false, if_false]
  exact ⟨⟨_, rfl⟩, trivial⟩

/-- The root binding leads to the directory that the alias is bound to. -/
theorem root_of_aliasVerified (hwf : fs.bindings.WellFormed) (halias : fs.AliasVerified)
    (hb : b ∈ fs.bindings.guest) (hcwd : fs.cwdAliasPrefix = some b.guest)
    (he : fs.bindings.getBinding .guest ['/'] = some e) :
    e ∈ fs.bindings.guest ∧ comps e.guest = [] ∧ comps b.host = comps e.host ∧
      comps b.guest ≠ [] := by
  obtain ⟨halias', hverified⟩ := halias _ hcwd
  have hbc := (hwf.canonical .guest b hb).1
  have hbb : fs.bindings.getBinding .guest b.guest = some b :=
    (hwf.getBinding_guest_iff hbc.2).2 ⟨hb, List.prefix_rfl, fun c _ hc => hc⟩
  obtain ⟨e', he', hehost⟩ := hverified b hbb rfl
  obtain rfl := Option.some.inj (he.symm.trans he')
  obtain ⟨het, henil⟩ := hwf.getBinding_mem (by simp) (by decide : IsAbsolute ['/']) he
  have hec := (hwf.canonical .guest e het).1
  refine ⟨het, List.prefix_nil.1 henil,
    (Bindings.comparePaths2_eq_equal_iff hbc.1.1 hec.1.1).1 hehost, ?_⟩
  rw [halias']
  decide

/-- What is left of a name that the alias's own binding gives. -/
theorem cut_name (hb : IsCanonical b.guest) (hne : comps b.guest ≠ [])
    (hrest : ∀ c ∈ rest, IsName c) (hcwd : fs.cwdAliasPrefix = some b.guest)
    (hcut : fs.cutsAlias (render (comps b.guest ++ rest)) = true) :
    (fs.normalizeCwdAliasPath (render (comps b.guest ++ rest))).2 = render rest := by
  obtain ⟨cwdAlias, x, halias, -, -, -, hnorm⟩ := normalizeCwdAliasPath_of_cut hcut
  have hrender := cut_render hrest hne
  rw [render_comps hb] at hrender
  rw [hnorm, ← Option.some.inj (hcwd.symm.trans halias), ← hrender]
  split <;> rfl

/-- **The name of a host path**: the part below the host path of the binding that it goes
through, below the guest path of this binding. -/
theorem exists_name (hwf : fs.bindings.WellFormed) (halias : fs.AliasVerified)
    (hb : fs.bindings.HostNamed h b rest) :
    ∃ n r, detranslateFollowing fs true false h = .ok (n, r) ∧
      ∀ e, fs.reportedThrough h = some e → e ∈ fs.bindings.guest ∧
        comps e.host = comps b.host ∧ r = render (comps e.guest ++ rest) := by
  by_cases hcut : fs.CutsName b rest
  · obtain ⟨⟨n, hname⟩, hthrough⟩ := detranslateFollowing_of_cut hb hcut
    refine ⟨n, _, hname, fun e he => ?_⟩
    rw [hthrough] at he
    split at he
    · rename_i hcwd
      obtain ⟨het, henil, hhost, hne⟩ := root_of_aliasVerified hwf halias hb.mem hcwd he
      refine ⟨het, hhost.symm, ?_⟩
      rw [henil, List.nil_append]
      exact cut_name (hwf.canonical .guest b hb.mem).1.2 hne hb.names hcwd hcut.2
    · cases he
  · obtain ⟨⟨n, hname⟩, hthrough⟩ := detranslateFollowing_of_not_cut hb hcut
    refine ⟨n, _, hname, fun e he => ?_⟩
    obtain rfl := Option.some.inj (hthrough.symm.trans he)
    exact ⟨hb.mem, rfl, rfl⟩

end FileSystemNameSpace

/-- Without a referrer only the names of `/proc` are left as they are. -/
theorem detranslatePath_eq (tracee : Tracee) (getTracee : ℤ → Option Tracee) {h : CStr}
    (hh : IsCanonical h) (hlen : h.length < pathMax) :
    detranslatePath tracee getTracee h none =
      if IsProcPath h then .ok (h.length + 1, h)
      else detranslateFollowing tracee.fs true false h := by
  simp only [detranslatePath, hh.1, not_true_eq_false, if_false]
  rw [if_neg (by omega)]

/-- **Where the reported name of a host path leads.**  The host path of a guest path has a
guest name: the place below the binding that the name goes through.  The name leads back
exactly when the bindings below that binding continue it. -/
theorem detranslatePath_substituteBinding (tracee : Tracee) (getTracee : ℤ → Option Tracee)
    (ht : tracee.fs.bindings.Reachable) (halias : tracee.fs.AliasVerified) {g h : CStr} {s : Bool}
    (hg : IsCanonical g) (hlen : g.length < pathMax)
    (hsub : tracee.fs.bindings.substituteBinding .guest g = .ok (s, h))
    (hfit : tracee.fs.bindings.SubstitutionFits .guest g)
    (hfit' : tracee.fs.bindings.SubstitutionFits .host h) :
    ∃ n r, detranslatePath tracee getTracee h none = .ok (n, r) ∧
      (¬ IsProcPath h → ∀ e, tracee.fs.reportedThrough h = some e →
        ∃ rest, comps h = comps e.host ++ rest ∧ r = render (comps e.guest ++ rest) ∧
          (tracee.fs.bindings.SubstitutionFits .guest r →
            ((∃ s', tracee.fs.bindings.substituteBinding .guest r = .ok (s', h)) ↔
              ∀ c, tracee.fs.bindings.getBinding .guest r = some c → e.ContinuedBy c))) := by
  have hwf := ht.wellFormed
  obtain ⟨hh, b₀, hb₀, hbelow⟩ := hwf.host_canonical hg hsub hfit
  obtain ⟨b, rest, hb⟩ := hwf.exists_hostNamed hh hb₀ hbelow hfit'
  rw [detranslatePath_eq tracee getTracee hh (Bindings.length_substituteBinding_lt hlen hsub)]
  by_cases hproc : IsProcPath h
  · rw [if_pos hproc]
    exact ⟨_, _, rfl, fun hnot => absurd hproc hnot⟩
  rw [if_neg hproc]
  obtain ⟨n, r, hname, hthrough⟩ := FileSystemNameSpace.exists_name hwf halias hb
  refine ⟨n, r, hname, fun _ e he => ?_⟩
  obtain ⟨het, hhost, rfl⟩ := hthrough e he
  refine ⟨rest, hhost ▸ hb.below, rfl, fun hfits => ?_⟩
  have hself : h = render (comps e.host ++ rest) := hhost ▸ hb.path_eq
  rw [hself]
  exact hwf.substituteBinding_iff_continuedBy het hb.names hfits

/-- A guest root, one of its directories bound a second time, and, in `shadowed`,
a directory bound below that. -/
def boundOps : List Op := [.insortBinding3 (str "/r") (str "/"), .insortBinding3 (str "/r/d") (str "/m")]

def shadowedOps : List Op := boundOps ++ [.insortBinding3 (str "/x") (str "/m/s")]

/-- A tracee whose bindings are those a run of operations leaves. -/
def traceeAfter (ops : List Op) : Tracee where
  pid := 1
  exe := str "/bin/sh"
  fs := { bindings := ops.foldl Bindings.step Bindings.empty, cwd := str "/", cwdAliasPrefix := none }
  openat2Resolve := 0
  openat2Oflags := 0

theorem traceeAfter_reachable (ops : List Op) (hops : ∀ op ∈ ops, op.Canonical) :
    (traceeAfter ops).fs.bindings.Reachable := by
  refine ⟨ops, hops, ?_⟩
  change ops.foldl Bindings.step Bindings.empty ∈ _
  generalize Bindings.empty = t
  clear hops
  induction ops generalizing t with
  | nil => simp
  | cons op ops ih => exact List.mem_cons_of_mem _ (ih (t.step op))

theorem detranslatePath_substituteBinding_bound :
    ∃ n r, detranslatePath (traceeAfter boundOps) (fun _ => none) (str "/r/d/f") none = .ok (n, r) ∧
      (¬ IsProcPath (str "/r/d/f") →
        ∀ e, (traceeAfter boundOps).fs.reportedThrough (str "/r/d/f") = some e →
          ∃ rest, comps (str "/r/d/f") = comps e.host ++ rest ∧
            r = render (comps e.guest ++ rest) ∧
            ((traceeAfter boundOps).fs.bindings.SubstitutionFits .guest r →
              ((∃ s', (traceeAfter boundOps).fs.bindings.substituteBinding .guest r =
                  .ok (s', str "/r/d/f")) ↔
                ∀ c, (traceeAfter boundOps).fs.bindings.getBinding .guest r = some c →
                  e.ContinuedBy c))) :=
  detranslatePath_substituteBinding (traceeAfter boundOps) (fun _ => none) (g := str "/d/f")
    (s := true) (traceeAfter_reachable boundOps (by decide))
    (by simp [FileSystemNameSpace.AliasVerified, traceeAfter])
    (by decide) (by decide) (by decide) (by decide) (by decide)

/-- The name `/m/s/f` that is reported for `/r/d/s/f` denotes `/x/f`. -/
theorem exists_reported_name_elsewhere :
    ¬ ∀ (tracee : Tracee) (getTracee : ℤ → Option Tracee) (g h : CStr) (s : Bool),
      tracee.fs.bindings.Reachable → IsCanonical g → g.length < pathMax →
      ¬ str "/proc" <+: g → tracee.fs.bindings.substituteBinding .guest g = .ok (s, h) →
      ∃ n r s', detranslatePath tracee getTracee h none = .ok (n, r) ∧
        tracee.fs.bindings.substituteBinding .guest r = .ok (s', h) := by
  intro hall
  have hreach := traceeAfter_reachable shadowedOps (by decide)
  obtain ⟨n, r, s', hdetr, hsub⟩ := hall (traceeAfter shadowedOps) (fun _ => none) (str "/d/s/f")
    (str "/r/d/s/f") true hreach (by decide) (by decide) (by decide) (by decide)
  have hname : detranslatePath (traceeAfter shadowedOps) (fun _ => none) (str "/r/d/s/f") none =
      .ok (7, str "/m/s/f") := by decide
  obtain ⟨-, rfl⟩ := Prod.mk.inj (Except.ok.inj (hname.symm.trans hdetr))
  have hx : (traceeAfter shadowedOps).fs.bindings.substituteBinding .guest (str "/m/s/f") =
      .ok (true, str "/x/f") := by decide
  have heq := Prod.mk.inj (Except.ok.inj (hx.symm.trans hsub))
  exact absurd heq.2 (by decide)

end NeoProot
