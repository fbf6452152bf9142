import NeoProot.Path.DirfdEntries
import NeoProot.Lib.Run

/-!
# The directory descriptor cache over a run

An entry of the cache is current when its guest name is the one
`detranslate_path` finds for its link now.  Every call of the tracer leaves only
current entries, as long as a change of bindings renames no directory of another
tracee.  On current entries the answer from the cache is that of the uncached
walk, unless the call is one of those that `Harmless` rules out.

## Main definitions

* `DirfdOp`, `DirfdState.step` — what happens to the cache.
* `Current`, `KeepsNames` — entries that are up to date, and steps that keep them so.
* `OneEach` — one entry at most for a descriptor, so that a tracee's are all forgotten.
* `Harmless` — the calls that the cache answers as the walk does.
-/

namespace NeoProot
open PathWalk

variable {w : PathWorld} {guestDir path procPath userPath : CStr} {c : DirfdCache}

/-! ### The walk of a directory name -/

/-- The names of a canonical path. -/
theorem names_render {cs : List CStr} (h : ∀ c ∈ cs, IsName c) : names (render cs) = cs := by
  have hflat : ∀ cs : List CStr, (∀ c ∈ cs, IsName c) → names (Segments.flat '/' cs) = cs := by
    intro cs hcs
    induction cs with
    | nil => rfl
    | cons c cs ih =>
      have hc := hcs c (by simp)
      have hrest := ih fun d hd => hcs d (by simp [hd])
      rw [Segments.flat_cons, List.cons_append, names, namesFrom_cons_slash, if_pos rfl,
        namesFrom_append hc.2, List.nil_append]
      cases cs with
      | nil => simp [namesFrom, hc.1]
      | cons d ds =>
        rw [Segments.flat_cons, List.cons_append] at hrest ⊢
        rw [namesFrom_cons_slash, if_neg hc.1]
        rw [names, namesFrom_cons_slash, if_pos rfl] at hrest
        rw [hrest]
  by_cases hnil : cs = []
  · subst hnil
    rfl
  · rw [render_of_ne hnil]
    exact hflat cs h

/-- The name of a directory fits the buffers, and every place it goes through is a
directory. -/
structure Walkable (w : World) (place : List CStr) : Prop where
  entry : ∀ d ∈ place, IsEntry d
  length : ∀ d ∈ place, d.length < nameMax
  directory : ∀ p, p ≠ [] → p <+: place → w.view.node p = .directory

/-- A lookup of a directory that is not the last name. -/
theorem substituteBindingStat_directory {w : World} {place : List CStr}
    (h : w.view.node place = .directory) :
    ∃ hostPath, substituteBindingStat w .notFinal (render place) = .ok (false, hostPath) := by
  obtain ⟨hostPath, hhost⟩ := World.hostPath_of_directory h
  simp only [World.view, World.viewWith, World.node, hhost] at h
  simp only [World.hostPath] at hhost
  simp only [substituteBindingStat]
  cases hsub : w.tracee.fs.bindings.substituteBinding .guest (render place) with
  | error e => simp [hsub] at hhost
  | ok found =>
    simp only [hsub, Except.ok.injEq] at hhost
    simp only [hhost]
    split at h
    · simp at h
    · cases hstat : w.lstat hostPath with
      | ok mode => cases mode <;> simp_all
      | error e =>
        simp only [hstat] at h
        split at h
        · simp_all
        · simp at h

/-- The loop walks through directories to the final name, and keeps it. -/
theorem canonicalizeLoop_walkable {w : World} {recurse : CStr → CStr → ℕ → Except Errno CStr}
    {place ds : List CStr} {c : CStr} (hplace : ∀ d ∈ place, IsName d)
    (hds : Walkable w (place ++ ds)) (hc : IsEntry c) (hlen : c.length < nameMax)
    (hfit : (render (place ++ ds ++ [c])).length + 1 < pathMax) {isLink : Bool} {hostPath : CStr}
    (hstat : substituteBindingStat w .finalNormal (render (place ++ ds ++ [c])) =
      .ok (isLink, hostPath))
    (hlink : isLink = true →
      checkLink w.tracee .finalNormal 0 (render (place ++ ds ++ [c])) ≠ .eloop) (fin : Finality) :
    canonicalizeLoop w recurse false 0 0 (render place) fin (tokensOf .finalNormal (ds ++ [c])) =
      .ok (render (place ++ ds ++ [c]), some .finalNormal) := by
  induction ds generalizing place fin with
  | nil =>
    rw [List.append_nil] at hfit hstat hlink
    rw [List.nil_append, List.append_nil, tokensOf, if_neg (by omega), if_pos rfl, canonicalizeLoop,
      if_neg hc.2.1, if_neg hc.2.2, joinPaths_render hplace hc.1, if_neg (by omega)]
    simp only [hstat]
    cases isLink with
    | false => simp [tokensOf, canonicalizeLoop]
    | true => simp [tokensOf, canonicalizeLoop, hlink rfl]
  | cons d ds ih =>
    have hd : IsEntry d := hds.entry d (by simp)
    have hnames : ∀ e ∈ place ++ [d], IsName e := fun e he => (hds.entry e (by
      rw [List.append_cons]
      exact List.mem_append_left _ he)).1
    have hall : ∀ e ∈ place ++ [d] ++ ds ++ [c], IsName e := by
      intro e he
      obtain he | he := List.mem_append.1 he
      · exact (hds.entry e (by simpa using he)).1
      · rw [List.mem_singleton.1 he]
        exact hc.1
    have hshort : (render (place ++ [d])).length < (render (place ++ [d] ++ ds ++ [c])).length :=
      render_length_lt hall ⟨by simp, by simp⟩
    rw [List.append_cons place d ds] at hds hfit hstat hlink ⊢
    have hlong := hds.length d (by simp)
    obtain ⟨_, hdir⟩ := substituteBindingStat_directory
      (hds.directory (place ++ [d]) (by simp) (List.prefix_append _ _))
    rw [List.cons_append, tokensOf, if_neg (by omega), if_neg (by simp), canonicalizeLoop,
      if_neg hd.2.1, if_neg hd.2.2, joinPaths_render hplace hd.1, if_neg (by omega)]
    simp only [hdir]
    exact ih hnames hds hfit hstat hlink .notFinal

/-- **The walk of a name in a directory finds the name itself.** -/
theorem canonicalize_walkable {w : World} {place : List CStr} {c base : CStr}
    (hplace : Walkable w place) (hc : IsEntry c) (hlen : c.length < nameMax)
    (hfit : (render (place ++ [c])).length + 1 < pathMax) {isLink : Bool} {hostPath : CStr}
    (hstat : substituteBindingStat w .finalNormal (render (place ++ [c])) = .ok (isLink, hostPath))
    (hlink : isLink = true →
      checkLink w.tracee .finalNormal 0 (render (place ++ [c])) ≠ .eloop) :
    canonicalize w (render (place ++ [c])) false base = .ok (render (place ++ [c])) := by
  have hnames : ∀ d ∈ place ++ [c], IsName d := fun d hd =>
    (entries_concat hplace.entry hc d hd).1
  have hlast : lastFinality (render (place ++ [c])) = .finalNormal := by
    rw [lastFinality, if_neg]
    rw [render_of_ne (by simp)]
    exact flat_getLast? hnames
  have hloop : ∀ recurse, canonicalizeLoop w recurse false 0 0 ['/'] .notFinal
      (tokensOf .finalNormal (place ++ [c])) = .ok (render (place ++ [c]), some .finalNormal) :=
    fun recurse => @canonicalizeLoop_walkable w recurse [] place c (by simp) hplace hc hlen hfit
      isLink hostPath hstat hlink .notFinal
  simp only [canonicalize, canonicalizeFrom, Nat.not_lt_zero, if_false]
  rw [if_neg (by omega), if_neg (by simp), if_pos (.inl (render_absolute _)),
    nextComponents_eq le_rfl, names_render hnames, if_neg (by simp), hlast, hloop]
  rfl

/-! ### One call -/

theorem isEntry_of_isSinglePathComponent (h : isSinglePathComponent path = true) :
    IsEntry path := by
  simp only [isSinglePathComponent, Bool.and_eq_true, decide_eq_true_eq] at h
  exact ⟨⟨h.1.1.1.1.1.1, h.2⟩, h.1.1.1.1.2, h.1.1.1.2⟩

/-- `dirfd_cache_slot` finds the entry, and `try_dirfd_component_fast` gives no
answer before it has put the guest path together. -/
structure UsesEntry (w : PathWorld) (c : DirfdCache) (dirFd : ℤ) (userPath procPath : CStr)
    (s : DirfdSlot) (guestFull : CStr) : Prop where
  found : ∃ index, (c.slot w.tracee.pid dirFd).1 = some index ∧ c.slots[index]? = some s
  same : s.procPath = procPath
  joined : joinPaths s.guestDir userPath = .ok guestFull
  binding : (w.tracee.fs.bindings.getBinding .guest guestFull).map (·.addr) =
    (w.tracee.fs.bindings.getBinding .guest s.guestDir).map (·.addr)
  noBug : w.shouldSkipFileAccessDueToF2fsBug s.guestDir = false

/-- What the walk from the directory asks and the cache does not: the name is no
name below `/proc`, the directory name leads to the directory, and no
`openat2` restriction stands against the final link. -/
structure AnsweredAlike (w : PathWorld) (guestDir userPath guestFull : CStr) : Prop where
  notProc : ¬ IsProcPath guestFull
  notAlias : procPathAfterAlias w.tracee.fs guestFull = none
  bound : (w.tracee.fs.bindings.getBinding .guest guestFull).isSome = true
  directory : ∃ place, guestDir = render place ∧ Walkable w.toWorld place
  length : userPath.length < nameMax
  noLoop : ∀ hostPath, substituteBindingStat w.toWorld .finalNormal guestFull =
    .ok (true, hostPath) → checkLink w.tracee .finalNormal 0 guestFull ≠ .eloop

/-- The descriptor's link has the guest name that the entry holds. -/
def NamedBy (w : PathWorld) (s : DirfdSlot) : Prop :=
  s.procPath.length < pathMax ∧ s.guestDir.length < pathMax ∧
    ∃ n, detranslatePath w.tracee w.getTracee s.procPath none = .ok (n, s.guestDir)

theorem substituteBinding_of_bound {t : Bindings} {side : Side}
    (h : (t.getBinding side path).isSome = true) :
    ∃ s path', t.substituteBinding side path = .ok (s, path') := by
  obtain ⟨b, hb⟩ := Option.isSome_iff_exists.1 h
  simp only [Bindings.substituteBinding, hb]
  split
  · exact ⟨_, _, rfl⟩
  · exact ⟨_, _, rfl⟩

/-- The final name in a bound place is looked at without an error. -/
theorem substituteBindingStat_final {w : World}
    (h : (w.tracee.fs.bindings.getBinding .guest path).isSome = true) :
    ∃ isLink hostPath, substituteBindingStat w .finalNormal path = .ok (isLink, hostPath) := by
  obtain ⟨_, _, hsub⟩ := substituteBinding_of_bound h
  simp [substituteBindingStat, hsub, Finality.isFinal]

/-- **The answer from the cache is the answer of the walk.** -/
theorem translateFrom_answeredAlike {guestFull : CStr}
    (hjoin : joinPaths guestDir userPath = .ok guestFull) (huser : IsEntry userPath)
    (h : AnsweredAlike w guestDir userPath guestFull) :
    ∃ s result, w.tracee.fs.bindings.substituteBinding .guest guestFull = .ok (s, result) ∧
      translateFrom w guestDir userPath false = .ok (w.notifyTranslatedPath result) := by
  obtain ⟨place, rfl, hplace⟩ := h.directory
  have hnames : ∀ d ∈ place, IsName d := fun d hd => (hplace.entry d hd).1
  have hjoin' := hjoin
  rw [joinPaths_render hnames huser.1] at hjoin'
  split at hjoin'
  · simp at hjoin'
  rename_i hfit
  obtain rfl := Except.ok.inj hjoin'
  obtain ⟨s, result, hsub⟩ := substituteBinding_of_bound h.bound
  obtain ⟨isLink, hostPath, hstat⟩ := substituteBindingStat_final (w := w.toWorld) h.bound
  have hcanon : canonicalize w.toWorld (render (place ++ [userPath])) false (render place) =
      .ok (render (place ++ [userPath])) := by
    refine canonicalize_walkable hplace huser h.length (by omega) hstat fun hlink => ?_
    subst hlink
    exact h.noLoop hostPath hstat
  refine ⟨s, result, hsub, ?_⟩
  simp only [translateFrom, hjoin, h.notProc, h.notAlias, hcanon, hsub, if_false]

theorem tryDirfdComponentFast_init (w : PathWorld) (dirFd : ℤ) (userPath procPath : CStr) :
    (tryDirfdComponentFast w .init dirFd userPath procPath).1 = .failed procPath := by
  have hslot := DirfdCache.slot_init w.tracee.pid dirFd
  simp only [tryDirfdComponentFast]
  generalize DirfdCache.init.slot w.tracee.pid dirFd = found at hslot
  obtain ⟨index, c⟩ := found
  dsimp only at hslot
  subst hslot
  rfl

/-- The cache gives no answer and leaves the buffer alone, or it answers as the
walk from the directory of a current entry does. -/
theorem tryDirfdComponentFast_cases {dirFd : ℤ} (huser : IsEntry userPath)
    (hc : c.All fun s => s.pid = w.tracee.pid → NamedBy w s)
    (h : ∀ s guestFull, UsesEntry w c dirFd userPath procPath s guestFull →
      AnsweredAlike w s.guestDir userPath guestFull) :
    (tryDirfdComponentFast w c dirFd userPath procPath).1 = .failed procPath ∨
      ∃ n guestDir result,
        detranslatePath w.tracee w.getTracee procPath none = .ok (n, guestDir) ∧
        translateFrom w guestDir userPath false = .ok result ∧
        (tryDirfdComponentFast w c dirFd userPath procPath).1 = .translated result := by
  have hslots := DirfdCache.slots_slot c w.tracee.pid dirFd
  have hfound := @DirfdCache.slot_eq_some c w.tracee.pid dirFd
  have huses : ∀ index s guestFull, (c.slot w.tracee.pid dirFd).1 = some index →
      c.slots[index]? = some s → s.procPath = procPath →
      joinPaths s.guestDir userPath = .ok guestFull →
      (w.tracee.fs.bindings.getBinding .guest guestFull).map (·.addr) =
        (w.tracee.fs.bindings.getBinding .guest s.guestDir).map (·.addr) →
      w.shouldSkipFileAccessDueToF2fsBug s.guestDir = false →
      AnsweredAlike w s.guestDir userPath guestFull :=
    fun index s guestFull hindex hs hproc hjoin hbinding hbug =>
      h s guestFull ⟨⟨index, hindex, hs⟩, hproc, hjoin, hbinding, hbug⟩
  simp only [tryDirfdComponentFast]
  generalize c.slot w.tracee.pid dirFd = found at hslots hfound huses
  obtain ⟨index, c'⟩ := found
  cases index with
  | none => exact .inl rfl
  | some index =>
    obtain ⟨hfd, s, hs, hpid, hsame⟩ := hfound rfl
    dsimp only at hslots huses ⊢
    rw [hslots, hs]
    dsimp only
    by_cases hproc : s.procPath = procPath
    swap
    · exact .inl (by rw [if_pos hproc])
    rw [if_neg (not_not_intro hproc)]
    cases hjoin : joinPaths s.guestDir userPath with
    | error e => exact .inl rfl
    | ok guestFull =>
      dsimp only
      by_cases hbinding : (w.tracee.fs.bindings.getBinding .guest guestFull).map (·.addr) =
          (w.tracee.fs.bindings.getBinding .guest s.guestDir).map (·.addr)
      swap
      · exact .inl (by rw [if_pos hbinding])
      rw [if_neg (not_not_intro hbinding)]
      by_cases hbug : w.shouldSkipFileAccessDueToF2fsBug s.guestDir = true
      · exact .inl (by rw [if_pos hbug])
      have halike := huses index s guestFull rfl hs hproc hjoin hbinding (by simpa using hbug)
      obtain ⟨_, result, hsub, htrans⟩ := translateFrom_answeredAlike hjoin huser halike
      obtain ⟨-, -, n, hname⟩ := hc s (List.mem_of_getElem? hs) (hsame ▸ hfd) hpid
      refine .inr ⟨n, s.guestDir, _, hproc ▸ hname, htrans, ?_⟩
      simp only [hbug, halike.notProc, halike.notAlias, hsub]
      simp

theorem length_normalizeCwdAliasPath_lt (fs : FileSystemNameSpace) (h : path.length < pathMax) :
    (fs.normalizeCwdAliasPath path).2.length < pathMax := by
  simp only [FileSystemNameSpace.normalizeCwdAliasPath]
  split
  · exact h
  · split
    · exact h
    · split
      · change 1 < pathMax
        decide
      · rw [List.length_drop]
        omega

/-- A guest name fits the buffer its host path fits. -/
theorem length_detranslatePath_lt {tracee : Tracee} {getTracee : ℤ → Option Tracee} {n : ℕ}
    (h : path.length < pathMax)
    (hname : detranslatePath tracee getTracee path none = .ok (n, guestDir)) :
    guestDir.length < pathMax := by
  simp only [detranslatePath, detranslateFollowing, if_true] at hname
  rw [if_neg (by omega)] at hname
  split at hname
  · obtain ⟨-, rfl⟩ := Prod.mk.inj (Except.ok.inj hname)
    exact h
  split at hname
  · obtain ⟨-, rfl⟩ := Prod.mk.inj (Except.ok.inj hname)
    exact h
  split at hname
  · rename_i hsub
    obtain ⟨-, rfl⟩ := Prod.mk.inj (Except.ok.inj hname)
    exact Bindings.length_substituteBinding_lt h hsub
  · rename_i hsub
    obtain ⟨-, rfl⟩ := Prod.mk.inj (Except.ok.inj hname)
    exact length_normalizeCwdAliasPath_lt _ (Bindings.length_substituteBinding_lt h hsub)
  · split at hname
    · obtain ⟨-, rfl⟩ := Prod.mk.inj (Except.ok.inj hname)
      rw [List.length_drop]
      omega
    · obtain ⟨-, rfl⟩ := Prod.mk.inj (Except.ok.inj hname)
      change 1 < pathMax
      decide
    · simp at hname

theorem slots_tryDirfdComponentFast (w : PathWorld) (c : DirfdCache) (dirFd : ℤ)
    (userPath procPath : CStr) :
    (tryDirfdComponentFast w c dirFd userPath procPath).2.slots = c.slots := by
  rw [← DirfdCache.slots_slot c w.tracee.pid dirFd]
  simp only [tryDirfdComponentFast]
  generalize c.slot w.tracee.pid dirFd = found
  obtain ⟨index, c'⟩ := found
  cases index with
  | none => rfl
  | some index =>
    dsimp only
    repeat' split
    all_goals rfl

theorem readlinkProcPidFd_length_lt {fd : ℤ} (h : readlinkProcPidFd w fd = .ok path) :
    path.length < pathMax := by
  simp only [readlinkProcPidFd] at h
  split at h
  · simp at h
  · split at h
    · simp at h
    · rw [← Except.ok.inj h]
      omega

/-- The call looks the descriptor up in the cache only where the walk from the
directory gives the same answer. -/
def HarmlessCall (w : PathWorld) (c : DirfdCache) (dirFd : ℤ) (userPath : CStr) : Prop :=
  ∀ procPath s guestFull, readlinkProcPidFd w dirFd = .ok procPath → IsAbsolute procPath →
    procPath ≠ str "/proc" → UsesEntry w c dirFd userPath procPath s guestFull →
    AnsweredAlike w s.guestDir userPath guestFull

theorem length_joinPaths_lt {path1 path2 : CStr} (h : joinPaths path1 path2 = .ok path) :
    path.length < pathMax := by
  have happend : ∀ {result path path' : CStr}, result.length < pathMax →
      appendPath result path = .ok path' → path'.length < pathMax := by
    intro result path path' hlt h
    simp only [appendPath] at h
    split at h
    · rwa [← Except.ok.inj h]
    by_cases hslash : result ≠ [] ∧ result.getLast? ≠ some '/' ∧ path.head? ≠ some '/'
    · rw [if_pos hslash, if_pos hslash] at h
      split at h
      · simp at h
      · rw [← Except.ok.inj h, List.length_append, List.length_cons]
        omega
    · rw [if_neg hslash, if_neg hslash] at h
      split at h
      · simp at h
      split at h
      · rw [← Except.ok.inj h, List.length_append, List.length_drop]
        omega
      · rw [← Except.ok.inj h, List.length_append]
        omega
  simp only [joinPaths] at h
  split at h
  · simp at h
  · rename_i hfirst
    exact happend (happend (by decide) hfirst) h

/-- What a fast path that gives no answer leaves in the buffer fits it. -/
theorem length_of_failed {dirFd : ℤ} {link : CStr} (h : procPath.length < pathMax)
    (hfailed : (tryDirfdComponentFast w c dirFd userPath procPath).1 = .failed link) :
    link.length < pathMax := by
  simp only [tryDirfdComponentFast] at hfailed
  generalize c.slot w.tracee.pid dirFd = found at hfailed
  obtain ⟨index, c'⟩ := found
  cases index with
  | none =>
    obtain rfl := FastResult.failed.inj hfailed
    exact h
  | some index =>
    dsimp only at hfailed
    split at hfailed
    · rwa [← FastResult.failed.inj hfailed]
    split at hfailed
    · rwa [← FastResult.failed.inj hfailed]
    split at hfailed
    · rwa [← FastResult.failed.inj hfailed]
    rename_i hjoin
    have hlen := length_joinPaths_lt hjoin
    split at hfailed
    · rwa [← FastResult.failed.inj hfailed]
    split at hfailed
    · rwa [← FastResult.failed.inj hfailed]
    split at hfailed
    · rwa [← FastResult.failed.inj hfailed]
    split at hfailed
    · rwa [← FastResult.failed.inj hfailed]
    · simp at hfailed

/-- What a call leaves in the cache: the entries there were, or one more with the
guest name of the descriptor's link. -/
theorem translatePath_cache (w : PathWorld) (c : DirfdCache) (dirFd : Option ℤ) (userPath : CStr)
    (derefFinal : Bool) :
    (translatePath w c dirFd userPath derefFinal).2.slots = c.slots ∨
      ∃ (c' : DirfdCache) (fd : ℤ) (procPath : CStr) (n : ℕ) (guestDir : CStr),
        c'.slots = c.slots ∧ procPath.length < pathMax ∧
        guestDir.length < pathMax ∧
        detranslatePath w.tracee w.getTracee procPath none = .ok (n, guestDir) ∧
        (translatePath w c dirFd userPath derefFinal).2 =
          c'.remember w.tracee.pid fd procPath guestDir := by
  simp only [translatePath]
  split
  · exact .inl rfl
  split
  · exact .inl rfl
  split
  · exact .inl rfl
  cases dirFd with
  | none =>
    dsimp only
    split <;> exact .inl rfl
  | some fd =>
    dsimp only
    cases hlink : readlinkProcPidFd w fd with
    | error e => exact .inl rfl
    | ok procPath =>
      dsimp only
      split
      · exact .inl rfl
      split
      · exact .inl rfl
      generalize hfast : (if ¬ derefFinal = true ∧ isSinglePathComponent userPath = true then
        tryDirfdComponentFast w c fd userPath procPath else (.failed procPath, c)) = fast
      have hslots : fast.2.slots = c.slots := by
        rw [← hfast]
        split
        · exact slots_tryDirfdComponentFast w c fd userPath procPath
        · rfl
      have hfailed : ∀ link, fast.1 = .failed link → link.length < pathMax := by
        rw [← hfast]
        split
        · exact fun link => length_of_failed (readlinkProcPidFd_length_lt hlink)
        · rintro link ⟨⟩
          exact readlinkProcPidFd_length_lt hlink
      obtain ⟨fast, c'⟩ := fast
      cases fast with
      | translated result => exact .inl hslots
      | failed link =>
        dsimp only
        cases hname : detranslatePath w.tracee w.getTracee link none with
        | error e => exact .inl hslots
        | ok found =>
          have hlen := hfailed link rfl
          exact .inr ⟨c', fd, link, found.1, found.2, hslots, hlen,
            length_detranslatePath_lt hlen hname, hname, rfl⟩

/-- **One call.**  With current entries it answers as it does with an empty cache. -/
theorem translatePath_harmless {dirFd : Option ℤ} {derefFinal : Bool}
    (hc : c.All fun s => s.pid = w.tracee.pid → NamedBy w s)
    (h : derefFinal = false → isSinglePathComponent userPath = true → ∀ fd, dirFd = some fd →
      HarmlessCall w c fd userPath) :
    (translatePath w c dirFd userPath derefFinal).1 =
      (translatePath w .init dirFd userPath derefFinal).1 := by
  simp only [translatePath]
  split
  · rfl
  split
  · rfl
  split
  · rfl
  cases dirFd with
  | none =>
    dsimp only
    split <;> rfl
  | some fd =>
    dsimp only
    cases hlink : readlinkProcPidFd w fd with
    | error e => rfl
    | ok procPath =>
      dsimp only
      split
      · rfl
      rename_i habs
      split
      · rfl
      rename_i hnotProc
      by_cases hfast : ¬ derefFinal = true ∧ isSinglePathComponent userPath = true
      swap
      · rw [if_neg hfast, if_neg hfast]
        dsimp only
        cases detranslatePath w.tracee w.getTracee procPath none <;> rfl
      obtain ⟨hderef, huser⟩ := hfast
      rw [Bool.not_eq_true] at hderef
      subst hderef
      rw [if_pos ⟨by simp, huser⟩, if_pos ⟨by simp, huser⟩]
      have hinit := tryDirfdComponentFast_init w fd userPath procPath
      have hcases := tryDirfdComponentFast_cases (isEntry_of_isSinglePathComponent huser) hc
        fun s guestFull =>
          h rfl huser fd rfl procPath s guestFull hlink (by simpa using habs) hnotProc
      generalize tryDirfdComponentFast w .init fd userPath procPath = empty at hinit
      generalize tryDirfdComponentFast w c fd userPath procPath = fast at hcases
      obtain ⟨fast, c'⟩ := fast
      obtain ⟨empty, c''⟩ := empty
      dsimp only at hinit hcases ⊢
      subst hinit
      obtain rfl | ⟨n, guestDir, result, hname, htrans, rfl⟩ := hcases
      · dsimp only
        cases detranslatePath w.tracee w.getTracee procPath none <;> rfl
      · simp only [hname, htrans]

/-! ### Runs -/

/-- What the calls of the tracer, and the tracees between them, do. -/
inductive DirfdOp
  | translatePath (pid : ℕ) (dirFd : Option ℤ) (userPath : CStr) (derefFinal : Bool)
  /-- A tracee changes the bindings it sees, which others may share. -/
  | changeBindings (pid : ℕ) (world : (pid : ℕ) → {w : PathWorld // w.tracee.pid = pid})
  /-- Anything else around the tracer changes. -/
  | changeWorld (world : (pid : ℕ) → {w : PathWorld // w.tracee.pid = pid})
  | forget (pid : ℕ) (fd : ℤ)
  | forgetRange (pid first last : ℕ)
  | clear (pid : ℕ)
  | copy (pid : ℕ) (sourceFd targetFd : ℤ)
  | inherit (parentPid childPid : ℕ)

/-- The cache, and the surroundings each tracee's path is translated in. -/
structure DirfdState where
  cache : DirfdCache
  world : (pid : ℕ) → {w : PathWorld // w.tracee.pid = pid}

namespace DirfdState

/-- What one of them does to the cache. -/
def step (s : DirfdState) : DirfdOp → DirfdState
  | .translatePath pid dirFd userPath derefFinal =>
    { s with cache := (NeoProot.translatePath (s.world pid) s.cache dirFd userPath derefFinal).2 }
  | .changeBindings pid world => ⟨s.cache.clear pid, world⟩
  | .changeWorld world => { s with world := world }
  | .forget pid fd => { s with cache := s.cache.forget pid fd }
  | .forgetRange pid first last => { s with cache := s.cache.forgetRange pid first last }
  | .clear pid => { s with cache := s.cache.clear pid }
  | .copy pid sourceFd targetFd => { s with cache := s.cache.copy pid sourceFd targetFd }
  | .inherit parentPid childPid => { s with cache := s.cache.inherit parentPid childPid }

/-- The entry's guest name is the one found for its link now. -/
def Current (world : (pid : ℕ) → {w : PathWorld // w.tracee.pid = pid}) (slot : DirfdSlot) : Prop :=
  NamedBy (world slot.pid) slot

/-- A change gives no directory that is cached another guest name, up to those of the
tracee that changes its bindings; and a new tracee names the directories as its
parent does. -/
def KeepsNames (s : DirfdState) (op : DirfdOp) : Prop :=
  match op with
  | .changeBindings pid world =>
    s.cache.All fun slot => slot.pid ≠ pid → Current s.world slot → Current world slot
  | .changeWorld world => s.cache.All fun slot => Current s.world slot → Current world slot
  | .inherit parentPid childPid =>
    s.cache.All fun slot => slot.pid = parentPid → Current s.world slot →
      Current s.world { slot with pid := childPid }
  | _ => True

/-- A translation is no call on which the cache and the walk part. -/
def Harmless (s : DirfdState) : DirfdOp → Prop
  | .translatePath pid dirFd userPath derefFinal =>
    derefFinal = false → isSinglePathComponent userPath = true → ∀ fd, dirFd = some fd →
      HarmlessCall (s.world pid) s.cache fd userPath
  | _ => True

/-- A translation gives what it gives with an empty cache. -/
def Agrees (s : DirfdState) : DirfdOp → Prop
  | .translatePath pid dirFd userPath derefFinal =>
    (NeoProot.translatePath (s.world pid) s.cache dirFd userPath derefFinal).1 =
      (NeoProot.translatePath (s.world pid) .init dirFd userPath derefFinal).1
  | _ => True

variable {s : DirfdState}

theorem all_copy (h : s.cache.All (Current s.world)) (pid : ℕ) (sourceFd targetFd : ℤ) :
    (s.cache.copy pid sourceFd targetFd).All (Current s.world) := by
  have hslot := h.slot pid sourceFd
  have hslots := DirfdCache.slots_slot s.cache pid sourceFd
  have hfound := @DirfdCache.slot_eq_some s.cache pid sourceFd
  simp only [DirfdCache.copy]
  generalize s.cache.slot pid sourceFd = found at hslot hslots hfound
  obtain ⟨index, c⟩ := found
  cases index with
  | none => exact hslot.forget pid targetFd
  | some index =>
    obtain ⟨hfd, source, hsource, hpid, hsame⟩ := hfound rfl
    dsimp only at hslots ⊢
    rw [hslots, hsource]
    obtain ⟨hproc, hguest, hname⟩ := h source (List.mem_of_getElem? hsource) (hsame ▸ hfd)
    refine hslot.remember ?_
    simp only [Current, NamedBy]
    rw [List.take_of_length_le (by omega), List.take_of_length_le (by omega)]
    exact ⟨hproc, hguest, hpid ▸ hname⟩

theorem all_inherit (h : s.cache.All (Current s.world)) {parentPid childPid : ℕ}
    (hkeeps : s.KeepsNames (.inherit parentPid childPid)) :
    (s.cache.inherit parentPid childPid).All (Current s.world) := by
  -- The loop meets entries of the parent that are as they were, and entries it made.
  have hinit : s.cache.All fun slot => Current s.world slot ∧
      (slot.pid = parentPid → Current s.world { slot with pid := childPid }) :=
    fun slot hslot hfd => ⟨h slot hslot hfd, fun hpid =>
      hkeeps slot hslot hfd hpid (h slot hslot hfd)⟩
  have hloop : (s.cache.inherit parentPid childPid).All fun slot => Current s.world slot ∧
      (slot.pid = parentPid → Current s.world { slot with pid := childPid }) := by
    refine DirfdCache.all_foldl (fun c index hc => ?_) (hinit.clear childPid) _
    cases hslot : c.slots[index]? with
    | none => exact hc
    | some slot =>
      dsimp only
      split
      · rename_i hpid
        by_cases hfd : 0 ≤ slot.fd
        · obtain ⟨-, hnew⟩ := hc slot (List.mem_of_getElem? hslot) hfd
          have hnew := hnew hpid
          have hlens := hnew
          simp only [Current, NamedBy] at hlens
          refine hc.remember ?_
          rw [List.take_of_length_le (by omega), List.take_of_length_le (by omega)]
          exact ⟨hnew, fun _ => hnew⟩
        · rw [DirfdCache.remember, if_pos (.inl (by omega))]
          exact hc
      · exact hc
  exact fun slot hslot hfd => (hloop slot hslot hfd).1

/-- A call records nothing but the guest name of a link, so the entries stay current. -/
theorem all_translatePath (h : s.cache.All (Current s.world)) (pid : ℕ) (dirFd : Option ℤ)
    (userPath : CStr) (derefFinal : Bool) :
    (NeoProot.translatePath (s.world pid) s.cache dirFd userPath derefFinal).2.All
      (Current s.world) := by
  have hpid := (s.world pid).2
  obtain hslots | ⟨c', fd, procPath, n, guestDir, hslots, hproc, hguest, hname, hcache⟩ :=
    translatePath_cache (s.world pid).1 s.cache dirFd userPath derefFinal
  · exact fun slot hslot => h slot (hslots ▸ hslot)
  · rw [hcache, hpid]
    have hc' : c'.All (Current s.world) := fun slot hslot => h slot (hslots ▸ hslot)
    refine hc'.remember ?_
    simp only [Current, NamedBy]
    rw [List.take_of_length_le (by omega), List.take_of_length_le (by omega)]
    exact ⟨hproc, hguest, n, hname⟩

/-- The cache holds one entry at most for a descriptor, whatever is recorded. -/
def OneEach (c : DirfdCache) : Prop := ∃ m, c.Sound m

theorem OneEach.remember (h : OneEach c) (pid : ℕ) (fd : ℤ) (hproc : procPath.length < pathMax)
    (hguest : guestDir.length < pathMax) : OneEach (c.remember pid fd procPath guestDir) := by
  obtain ⟨m, hm⟩ := h
  by_cases hrecords : fd < 0 ∨ ¬ IsAbsolute procPath ∨ ¬ IsAbsolute guestDir
  · rw [DirfdCache.remember, if_pos hrecords]
    exact ⟨m, hm⟩
  · simp only [not_or, not_lt, not_not] at hrecords
    obtain ⟨hfd, hprocAbs, hguestAbs⟩ := hrecords
    exact ⟨_, hm.remember pid ⟨procPath, guestDir⟩ hfd hprocAbs hguestAbs ⟨hproc, hguest⟩⟩

theorem oneEach_step (op : DirfdOp) (h : OneEach s.cache) : OneEach (s.step op).cache := by
  obtain ⟨m, hm⟩ := h
  cases op with
  | translatePath pid dirFd userPath derefFinal =>
    obtain hslots | ⟨c', fd, procPath, n, guestDir, hslots, hproc, hguest, -, hcache⟩ :=
      translatePath_cache (s.world pid).1 s.cache dirFd userPath derefFinal
    · exact ⟨m, hm.of_slots hslots⟩
    · simp only [step, hcache]
      exact OneEach.remember ⟨m, hm.of_slots hslots⟩ _ _ hproc hguest
  | changeBindings pid world =>
    simp only [step]
    exact ⟨_, hm.clear pid⟩
  | changeWorld world => exact ⟨m, hm⟩
  | forget pid fd =>
    simp only [step]
    exact ⟨_, hm.forget pid fd⟩
  | forgetRange pid first last =>
    simp only [step]
    exact ⟨_, hm.forgetRange pid first last⟩
  | clear pid =>
    simp only [step]
    exact ⟨_, hm.clear pid⟩
  | copy pid sourceFd targetFd =>
    simp only [step]
    exact ⟨_, hm.copy pid sourceFd targetFd⟩
  | inherit parentPid childPid =>
    simp only [step]
    exact ⟨_, hm.inherit parentPid childPid⟩

/-- **One step** keeps the entries current, and a translation agrees with the
uncached one. -/
theorem step_current (op : DirfdOp) (h : s.cache.All (Current s.world)) (hone : OneEach s.cache)
    (hkeeps : s.KeepsNames op) (hharmless : s.Harmless op) :
    (s.step op).cache.All (Current (s.step op).world) ∧ s.Agrees op := by
  cases op with
  | translatePath pid dirFd userPath derefFinal =>
    refine ⟨all_translatePath h pid dirFd userPath derefFinal,
      translatePath_harmless (fun slot hslot hfd hpid => ?_) hharmless⟩
    have hcurrent := h slot hslot hfd
    rwa [Current, hpid, (s.world pid).2] at hcurrent
  | changeBindings pid world =>
    obtain ⟨m, hm⟩ := hone
    have hothers := hm.all_clear pid
    have hkept : (s.cache.clear pid).All fun slot =>
        Current s.world slot ∧ (slot.pid ≠ pid → Current world slot) :=
      DirfdCache.All.clear (fun slot hslot hfd => ⟨h slot hslot hfd, fun hpid =>
        hkeeps slot hslot hfd hpid (h slot hslot hfd)⟩) pid
    exact ⟨fun slot hslot hfd => (hkept slot hslot hfd).2 (hothers slot hslot hfd), trivial⟩
  | changeWorld world =>
    exact ⟨fun slot hslot hfd => hkeeps slot hslot hfd (h slot hslot hfd), trivial⟩
  | forget pid fd => exact ⟨h.forget pid fd, trivial⟩
  | forgetRange pid first last =>
    simp only [step]
    exact ⟨h.forgetRange pid first last, trivial⟩
  | clear pid =>
    simp only [step]
    exact ⟨h.clear pid, trivial⟩
  | copy pid sourceFd targetFd => exact ⟨all_copy h pid sourceFd targetFd, trivial⟩
  | inherit parentPid childPid =>
    simp only [step]
    exact ⟨all_inherit h hkeeps, trivial⟩

/-- **The cache never shows.**  In a run whose changes keep the names of the cached
directories and whose translations are harmless, every translation is that of the
uncached walk, and every entry that is left is current. -/
theorem run_agrees (world : (pid : ℕ) → {w : PathWorld // w.tracee.pid = pid}) (ops : List DirfdOp)
    (h : Run.AllSteps step (fun s op => s.KeepsNames op ∧ s.Harmless op) ⟨.init, world⟩ ops) :
    Run.AllSteps step Agrees ⟨.init, world⟩ ops ∧
      ∀ s ∈ Run.states step ⟨.init, world⟩ ops, s.cache.All (Current s.world) := by
  have hrun : ∀ s : DirfdState, s.cache.All (Current s.world) → OneEach s.cache →
      Run.AllSteps step (fun s op => s.KeepsNames op ∧ s.Harmless op) s ops →
      Run.AllSteps step Agrees s ops ∧
        ∀ s' ∈ Run.states step s ops, s'.cache.All (Current s'.world) := by
    clear h
    induction ops with
    | nil => exact fun s hs _ _ => ⟨trivial, by simpa using hs⟩
    | cons op ops ih =>
      intro s hs hone hall
      obtain ⟨⟨hkeeps, hharmless⟩, hrest⟩ := hall
      obtain ⟨hnext, hagrees⟩ := step_current op hs hone hkeeps hharmless
      obtain ⟨hagreesRest, hstates⟩ := ih (s.step op) hnext (oneEach_step op hone) hrest
      exact ⟨⟨hagrees, hagreesRest⟩, List.forall_mem_cons.2 ⟨hs, hstates⟩⟩
  exact hrun _ DirfdCache.all_init ⟨fun _ => none, .init _⟩ h

/-- Tracees that see the host root, and a descriptor that leads to `target`. -/
def descriptorWorld (target : CStr) (pid : ℕ) : {w : PathWorld // w.tracee.pid = pid} :=
  ⟨{ tracee := { traceeAfter [.insortBinding3 (str "/") (str "/")] with pid := pid }
     getTracee := fun _ => none
     maxSymlinks := 40
     lstat := fun path => if path = str "/d/x" then .ok .other else .ok .directory
     readlink := fun _ => .ok target
     notifyHostPath := id
     shouldSkipFileAccessDueToF2fsBug := fun _ => false
     unset := fun _ => .other
     notifyTranslatedPath := id
     procMapFile := fun _ => .error .enoent }, rfl⟩

/-- The first translation fills the cache, the second one is answered from it. -/
def twoLookups (name : CStr) : List DirfdOp :=
  [.translatePath 1 (some 3) name false, .translatePath 1 (some 3) name false]

/-- The cache behind the first translation of `twoLookups (str "x")`. -/
theorem lookup_cache :
    ((⟨.init, descriptorWorld (str "/d")⟩ : DirfdState).step
      (.translatePath 1 (some 3) (str "x") false)).cache =
      ⟨DirfdCache.init.slots.set 0 ⟨1, 3, str "/d", str "/d"⟩, none, 1⟩ := by
  rfl

theorem run_agrees_lookups :
    Run.AllSteps step Agrees ⟨.init, descriptorWorld (str "/d")⟩ (twoLookups (str "x")) ∧
      ∀ s ∈ Run.states step ⟨.init, descriptorWorld (str "/d")⟩ (twoLookups (str "x")),
        s.cache.All (Current s.world) := by
  refine run_agrees _ _ ⟨⟨trivial, fun _ _ fd _ procPath s guestFull _ _ _ huses => ?_⟩,
    ⟨trivial, fun _ _ fd hfd procPath s guestFull hlink _ _ huses => ?_⟩, trivial⟩
  · obtain ⟨index, hindex, -⟩ := huses.found
    exact absurd ((DirfdCache.slot_init _ _).symm.trans hindex) (by simp)
  · obtain rfl := Option.some.inj hfd
    obtain ⟨index, hindex, hs⟩ := huses.found
    rw [lookup_cache] at hindex hs
    obtain rfl : 0 = index := Option.some.inj ((show _ = some 0 by rfl).symm.trans hindex)
    obtain rfl := Option.some.inj (hs.symm.trans (show _ = some _ by rfl))
    obtain rfl : str "/d/x" = guestFull :=
      Except.ok.inj ((show _ = Except.ok (str "/d/x") by rfl).symm.trans huses.joined)
    refine ⟨by decide, rfl, rfl, ⟨[str "d"], rfl, ?_, ?_, ?_⟩, by decide, fun hostPath h => ?_⟩
    · intro d hd
      rw [List.mem_singleton.1 hd]
      exact ⟨⟨by decide, by decide⟩, by decide, by decide⟩
    · intro d hd
      rw [List.mem_singleton.1 hd]
      decide
    · intro p hp hpre
      obtain rfl | rfl : p = [] ∨ p = [str "d"] := by
        obtain hnil | hpre := List.prefix_cons_iff.1 hpre
        · exact .inl hnil
        · obtain ⟨t, rfl, ht⟩ := hpre
          exact .inr (by rw [List.prefix_nil.1 ht])
      · exact absurd rfl hp
      · rfl
    · exact absurd ((show _ = Except.ok (false, str "/d/x") by rfl).symm.trans h) (by simp)

/-- Below a process directory of `/proc` the failed answer from the cache is taken
for the name of the directory. -/
theorem exists_lookup_elsewhere :
    ¬ ∀ (world : (pid : ℕ) → {w : PathWorld // w.tracee.pid = pid}) (ops : List DirfdOp),
      Run.AllSteps step Agrees ⟨.init, world⟩ ops := by
  intro hall
  have h := (hall (descriptorWorld (str "/proc/1234")) (twoLookups (str "status"))).2.1
  have hcached : (translatePath (descriptorWorld (str "/proc/1234") 1)
      ((⟨.init, descriptorWorld (str "/proc/1234")⟩ : DirfdState).step
        (.translatePath 1 (some 3) (str "status") false)).cache (some 3) (str "status") false).1 =
      .ok (str "/proc/1234/status/status") := by
    rfl
  have huncached : (translatePath (descriptorWorld (str "/proc/1234") 1) .init (some 3)
      (str "status") false).1 = .ok (str "/proc/1234/status") := by
    rfl
  exact absurd (Except.ok.inj (hcached.symm.trans (Eq.trans h huncached))) (by decide)

end DirfdState
end NeoProot
