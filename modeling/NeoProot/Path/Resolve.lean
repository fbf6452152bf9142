import NeoProot.Path.Names
import NeoProot.Lib.PathWalk

/-!
# Canonicalization is a path walk

The guest name-space is what the host file system looks like through the
bindings: `World.view`.  `canonicalize_walk` says that `canonicalize` ends where
the walk of a kernel below the guest root ends.  The walk takes the content of a
link as a guest path; the content of an absolute link is a host path that
`detranslate_path` gives a guest name.

## Main definitions

* `World.node`, `World.view` — the guest name-space.
* `walkStart` — where the walk of a user path starts.
* `World.NoDescriptor` — the walk comes to no descriptor link of `/proc`.
* `Reaches`, `Stuck` — how far the walk has come when the code returns.
-/

namespace NeoProot
open PathWalk

variable {c d : Config CStr} {e : Errno} {w : World} {derefFinal : Bool} {p rest : List CStr}
  {level m : ℕ}

/-- A component that is neither `.` nor `..`. -/
def IsEntry (c : CStr) : Prop := IsName c ∧ c ≠ str "." ∧ c ≠ str ".."

namespace World

variable (w : World)

/-- The host path of a guest place. -/
def hostPath (place : List CStr) : Except Errno CStr :=
  match w.tracee.fs.bindings.substituteBinding .guest (render place) with
  | .error e => .error e
  | .ok (_, hostPath) => .ok (w.notifyHostPath hostPath)

/-- The content of a link as the host file system has it. -/
def rawContent (place : List CStr) : Except Errno CStr :=
  match w.hostPath place with
  | .error e => .error e
  | .ok hostPath => w.readlink hostPath

/-- The emulated content of a link below `/proc`. -/
def emulatedContent (place : List CStr) : Option (Except Errno CStr) :=
  let base := render place.dropLast
  let comparison := comparePaths (str "/proc") base
  if comparison = .pathsAreEqual ∨ comparison = .path1IsPrefix then
    match readlinkProc w.tracee w.getTracee base (place.getLastD []) comparison with
    | .error e => some (.error e)
    | .ok (.canonicalize result) => some (.ok result)
    | _ => none
  else none

/-- The content of a link as a guest path. -/
def guestContent (place : List CStr) : Except Errno CStr :=
  match w.emulatedContent place with
  | some content => content
  | none =>
    match w.hostPath place with
    | .error e => .error e
    | .ok hostPath =>
      match w.readlink hostPath with
      | .error e => .error e
      | .ok content =>
        match detranslatePath w.tracee w.getTracee (content.take (pathMax - 1))
            (some hostPath) with
        | .error e => .error e
        | .ok (_, path) => .ok (w.notifyHostPath path)

/-- What a lookup says about a guest place, with the links read by `content`. -/
def node (content : List CStr → Except Errno CStr) (place : List CStr) : Node CStr Errno :=
  match w.hostPath place with
  | .error e => .failed e
  | .ok hostPath =>
    if w.shouldSkipFileAccessDueToF2fsBug hostPath then .missing
    else
      match w.lstat hostPath with
      | .ok .directory => .directory
      | .ok .other => .other
      | .ok .symlink =>
        .link ((content place).map fun path => (decide (IsAbsolute path), names path))
      | .error e =>
        if e = .eacces ∧
            (hostPath = str "/linkerconfig" ∨ hostPath = str "/system" ∨
              hostPath = str "/vendor") then .directory
        else .missing

/-- The guest name-space, with the links read by `content`. -/
def viewWith (content : List CStr → Except Errno CStr) : View CStr Errno where
  dot := str "."
  dotDot := str ".."
  noEntry := .enoent
  notDirectory := .enotdir
  node := w.node content

/-- The guest name-space. -/
def view : View CStr Errno := w.viewWith w.guestContent

/-- The walk has come to a name that a buffer does not hold. -/
def TooLong (d : Config CStr) : Prop :=
  pathMax ≤ (render d.place).length + 1 ∨
    ∃ c rest, d.todo = c :: rest ∧
      (nameMax ≤ c.length ∨ pathMax ≤ (render (d.place ++ [c])).length + 1 ∨
        ∃ path, w.guestContent (d.place ++ [c]) = .ok path ∧ pathMax ≤ path.length)

/-- The walk has come to a descriptor link of `/proc` that it is to follow. -/
def AtDescriptor (d : Config CStr) : Prop :=
  ∃ c rest result, d.todo = c :: rest ∧ (rest = [] → d.follow = true) ∧
    (∃ content, w.view.node (d.place ++ [c]) = .link content) ∧
    readlinkProc w.tracee w.getTracee (render d.place) c
      (comparePaths (str "/proc") (render d.place)) = .ok (.dontCanonicalize result)

/-- The walk from `c` comes to no descriptor link. -/
def NoDescriptor (c : Config CStr) : Prop :=
  ∀ n d, Walks w.view n c d → ¬ w.AtDescriptor d

end World

/-- Where the walk of a user path starts. -/
def walkStart (userPath : CStr) (derefFinal : Bool) (place : List CStr) : Config CStr where
  place := if IsAbsolute userPath then [] else place
  todo := names userPath
  follow := derefFinal || decide (userPath.getLast? = some '/')

/-- An ordinary call: no `openat2` restriction is set, and a failed `lstat` leaves
neither of the two modes behind that the code looks for. -/
structure World.Ordinary (w : World) : Prop where
  resolve : w.tracee.openat2Resolve = 0
  unset : ∀ path, w.unset path = .other

namespace World

variable {w : World} {place : List CStr}

theorem NoDescriptor.of_walks {n : ℕ} (h : w.NoDescriptor c) (hwalk : Walks w.view n c d) :
    w.NoDescriptor d :=
  fun m e he => h (n + m) e (hwalk.trans he)

/-- `substitute_binding_stat` is a lookup. -/
theorem substituteBindingStat_eq (hw : w.Ordinary) (fin : Finality) (place : List CStr) :
    substituteBindingStat w fin (render place) =
      match w.hostPath place with
      | .error e => .error e
      | .ok hostPath =>
        match w.view.node place with
        | .failed e => .error e
        | .missing => if fin.isFinal then .ok (false, hostPath) else .error .enoent
        | .other => if fin.isFinal then .ok (false, hostPath) else .error .enotdir
        | .directory => .ok (false, hostPath)
        | .link _ => .ok (true, hostPath) := by
  simp only [substituteBindingStat, view, viewWith, node, hostPath]
  cases hsub : w.tracee.fs.bindings.substituteBinding .guest (render place) with
  | error e => rfl
  | ok found =>
    simp only [hw.unset]
    by_cases hskip : w.shouldSkipFileAccessDueToF2fsBug (w.notifyHostPath found.2) = true
    · cases hfin : fin.isFinal <;> simp [hskip]
    · cases hstat : w.lstat (w.notifyHostPath found.2) with
      | ok mode => cases mode <;> cases hfin : fin.isFinal <;> simp [hskip]
      | error e =>
        by_cases hacces : e = .eacces ∧ (w.notifyHostPath found.2 = str "/linkerconfig" ∨
            w.notifyHostPath found.2 = str "/system" ∨ w.notifyHostPath found.2 = str "/vendor")
        · simp [hskip, hacces]
        · cases hfin : fin.isFinal <;> simp [hskip, hacces]

theorem node_of_hostPath_error (h : w.hostPath place = .error e) :
    w.view.node place = .failed e := by
  simp only [view, viewWith, node, h]

theorem hostPath_of_directory (h : w.view.node place = .directory) :
    ∃ hostPath, w.hostPath place = .ok hostPath := by
  cases hhost : w.hostPath place with
  | error e => exact absurd ((node_of_hostPath_error hhost).symm.trans h) (by simp)
  | ok hostPath => exact ⟨hostPath, rfl⟩

theorem node_link {content : Except Errno (Bool × List CStr)}
    (h : w.view.node place = .link content) :
    ∃ hostPath, w.hostPath place = .ok hostPath ∧ w.lstat hostPath = .ok .symlink ∧
      content = (w.guestContent place).map fun path => (decide (IsAbsolute path), names path) := by
  simp only [view, viewWith, node] at h
  cases hhost : w.hostPath place with
  | error e => simp [hhost] at h
  | ok hostPath =>
    simp only [hhost] at h
    split at h
    · exact absurd h (by simp)
    · cases hstat : w.lstat hostPath with
      | error e =>
        simp only [hstat] at h
        split at h <;> exact absurd h (by simp)
      | ok mode =>
        cases mode with
        | directory => simp [hstat] at h
        | other => simp [hstat] at h
        | symlink =>
          simp only [hstat, Node.link.injEq] at h
          exact ⟨hostPath, rfl, hstat, h.symm⟩

/-- The content the code reads is the content of the link in the view. -/
theorem linkContent_eq (fin : Finality) {c hostPath : CStr}
    (hdesc : ∀ result, readlinkProc w.tracee w.getTracee (render place) c
      (comparePaths (str "/proc") (render place)) ≠ .ok (.dontCanonicalize result))
    (hhost : w.hostPath (place ++ [c]) = .ok hostPath) (hstat : w.lstat hostPath = .ok .symlink) :
    linkContent w fin (render place) c hostPath =
      match w.guestContent (place ++ [c]) with
      | .error e => .error e
      | .ok path => .ok (.path path) := by
  have hread : readlinkHost w hostPath = match w.readlink hostPath with
      | .error e => .error e
      | .ok content =>
        match detranslatePath w.tracee w.getTracee (content.take (pathMax - 1)) (some hostPath) with
        | .error e => .error e
        | .ok (_, path) => .ok (.path (w.notifyHostPath path)) := by
    simp only [readlinkHost, hstat]
    cases w.readlink hostPath <;> rfl
  have hguest : ∀ r, r = readlinkHost w hostPath → w.emulatedContent (place ++ [c]) = none →
      r = match w.guestContent (place ++ [c]) with
        | .error e => .error e
        | .ok path => .ok (.path path) := by
    intro r hr hnone
    rw [hr, hread]
    simp only [guestContent, hnone, hhost]
    cases w.readlink hostPath with
    | error e => rfl
    | ok target =>
      simp only
      cases detranslatePath w.tracee w.getTracee (target.take (pathMax - 1)) (some hostPath) <;> rfl
  simp only [linkContent]
  by_cases hproc : comparePaths (str "/proc") (render place) = .pathsAreEqual ∨
      comparePaths (str "/proc") (render place) = .path1IsPrefix
  · rw [if_pos hproc]
    have hem : w.emulatedContent (place ++ [c]) =
        match readlinkProc w.tracee w.getTracee (render place) c
            (comparePaths (str "/proc") (render place)) with
        | .error e => some (.error e)
        | .ok (.canonicalize result) => some (.ok result)
        | _ => none := by
      simp only [emulatedContent, List.dropLast_concat, if_pos hproc]
      simp
    cases hr : readlinkProc w.tracee w.getTracee (render place) c
        (comparePaths (str "/proc") (render place)) with
    | error e =>
      rw [hr] at hem
      simp only [guestContent, hem]
    | ok action =>
      rw [hr] at hem
      cases action with
      | default => exact hguest _ rfl hem
      | canonicalize result => simp only [guestContent, hem]
      | dontCanonicalize result => exact absurd hr (hdesc result)
  · rw [if_neg hproc]
    refine hguest _ rfl ?_
    simp only [emulatedContent, List.dropLast_concat, if_neg hproc]

end World

/-! ### How far the walk has come -/

/-- The walk from `c` has come to a place with `rest` left, which the code returns.
The place is a directory, or the name ends in it and whether it may is not
decided yet. -/
inductive Reaches (w : World) (derefFinal : Bool) (c : Config CStr) (rest : List CStr) :
    List CStr → Prop
  | directory {n : ℕ} {place : List CStr} {follow : Bool} (hdir : w.view.IsDirectory place)
      (hentries : ∀ d ∈ place, IsEntry d) (hwalk : Walks w.view n c ⟨place, rest, follow⟩)
      (hfollow : rest ≠ [] → follow = c.follow) : Reaches w derefFinal c rest place
  | leaf {n : ℕ} {place : List CStr} {d : CStr} {follow : Bool} (hdir : w.view.IsDirectory place)
      (hentries : ∀ d ∈ place, IsEntry d) (hd : IsEntry d)
      (hwalk : Walks w.view n c ⟨place, d :: rest, follow⟩)
      (hfollow : rest ≠ [] → follow = c.follow)
      (hleaf : w.view.node (place ++ [d]) = .missing ∨ w.view.node (place ++ [d]) = .other ∨
        (derefFinal = false ∧ follow = false ∧ rest = [] ∧
          ∃ content, w.view.node (place ++ [d]) = .link content)) :
      Reaches w derefFinal c rest (place ++ [d])

/-- The walk from `c`, which `level` links lead to, has come to what makes the code
fail with `e`. -/
inductive Stuck (w : World) (c : Config CStr) (level : ℕ) : Errno → Prop
  | failed {n : ℕ} {d : Config CStr} {e : Errno} (hwalk : Walks w.view n c d)
      (hstep : step w.view d = .ended (.failed e)) : Stuck w c level e
  | loop {n : ℕ} {d : Config CStr} (hwalk : Walks w.view n c d) (hn : w.maxSymlinks < level + n) :
      Stuck w c level .eloop
  | tooLong {n : ℕ} {d : Config CStr} (hwalk : Walks w.view n c d) (hd : w.TooLong d) :
      Stuck w c level .enametoolong

theorem Reaches.of_walks (hwalk : Walks w.view m c d) (hfollow : rest ≠ [] → d.follow = c.follow)
    (h : Reaches w derefFinal d rest p) : Reaches w derefFinal c rest p := by
  cases h with
  | directory hdir hentries hwalk' hfollow' =>
    exact .directory hdir hentries (hwalk.trans hwalk')
      fun hne => (hfollow' hne).trans (hfollow hne)
  | leaf hdir hentries hd hwalk' hfollow' hleaf =>
    exact .leaf hdir hentries hd (hwalk.trans hwalk')
      (fun hne => (hfollow' hne).trans (hfollow hne)) hleaf

theorem Stuck.of_walks (hwalk : Walks w.view m c d) (h : Stuck w d (level + m) e) :
    Stuck w c level e := by
  cases h with
  | failed hwalk' hstep => exact .failed (hwalk.trans hwalk') hstep
  | loop hwalk' hn => exact .loop (hwalk.trans hwalk') (by omega)
  | tooLong hwalk' hd => exact .tooLong (hwalk.trans hwalk') hd

/-- What the walk says about the result of a call. -/
def CallMeets (w : World) (derefFinal : Bool) (c : Config CStr) (rest : List CStr) (level : ℕ) :
    Except Errno CStr → Prop
  | .error e => Stuck w c level e
  | .ok guestPath => ∃ p, guestPath = render p ∧ Reaches w derefFinal c rest p

/-- What the walk says about the result of the loop. -/
def LoopMeets (w : World) (derefFinal : Bool) (c : Config CStr) (rest : List CStr) (level : ℕ) :
    Except Errno (CStr × Option Finality) → Prop
  | .error e => Stuck w c level e
  | .ok (_, none) => False
  | .ok (guestPath, some _) => ∃ p, guestPath = render p ∧ Reaches w derefFinal c rest p

theorem LoopMeets.of_walks {r : Except Errno (CStr × Option Finality)} (hwalk : Walks w.view m c d)
    (hfollow : rest ≠ [] → d.follow = c.follow) (h : LoopMeets w derefFinal d rest (level + m) r) :
    LoopMeets w derefFinal c rest level r := by
  match r, h with
  | .error e, h => exact Stuck.of_walks hwalk h
  | .ok (_, some _), h =>
    obtain ⟨p, hp, hreach⟩ := h
    exact ⟨p, hp, hreach.of_walks hwalk hfollow⟩

theorem LoopMeets.mono {level' : ℕ} {r : Except Errno (CStr × Option Finality)}
    (hle : level ≤ level') (h : LoopMeets w derefFinal c rest level r) :
    LoopMeets w derefFinal c rest level' r := by
  match r, h with
  | .error e, h =>
    cases h with
    | failed hwalk hstep => exact .failed hwalk hstep
    | loop hwalk hn => exact .loop hwalk (by omega)
    | tooLong hwalk hd => exact .tooLong hwalk hd
  | .ok (_, some _), h => exact h

/-- What the loop relies on when it calls `canonicalize` for a link. -/
def RecurseMeets (w : World) (recurse : CStr → CStr → ℕ → Except Errno CStr) (level : ℕ) : Prop :=
  ∀ (path : CStr) (place rest : List CStr) (follow : Bool) (level' : ℕ), level < level' →
    w.NoDescriptor ⟨if IsAbsolute path then [] else place, names path ++ rest, follow⟩ →
    w.view.IsDirectory place → (∀ d ∈ place, IsEntry d) → (∀ d ∈ rest, IsName d) →
    (rest = [] → follow = true) →
    (pathMax ≤ path.length ∧ recurse path (render place) level' = .error .enametoolong) ∨
      CallMeets w true ⟨if IsAbsolute path then [] else place, names path ++ rest, follow⟩ rest
        level' (recurse path (render place) level')

section Loop

variable {w : World} {recurse : CStr → CStr → ℕ → Except Errno CStr} {derefFinal : Bool}
  {level : ℕ} {last : Finality} {place rest ns : List CStr} {c : CStr} {follow : Bool}

theorem entries_concat (hentries : ∀ d ∈ place, IsEntry d) (hc : IsEntry c) :
    ∀ d ∈ place ++ [c], IsEntry d := by
  intro d hd
  obtain hd | hd := List.mem_append.1 hd
  · exact hentries d hd
  · rw [List.mem_singleton.1 hd]
    exact hc

/-- A component that ends the name without being a directory ends the loop. -/
theorem loop_leaf (hdir : w.view.IsDirectory place) (hentries : ∀ d ∈ place, IsEntry d)
    (hc : IsEntry c) (fin : Finality)
    (hleaf : w.view.node (place ++ [c]) = .missing ∨ w.view.node (place ++ [c]) = .other ∨
      (derefFinal = false ∧ follow = false ∧ rest = [] ∧
        ∃ content, w.view.node (place ++ [c]) = .link content)) :
    LoopMeets w derefFinal ⟨place, c :: rest, follow⟩ rest level
      (.ok (render (place ++ [c]), some fin)) :=
  ⟨place ++ [c], rfl, .leaf hdir hentries hc .refl (fun _ => rfl) hleaf⟩

/-- What may only stand at the end of a name, and the error anywhere else. -/
inductive EndOnly (w : World) (place : List CStr) : Errno → Prop
  | missing (h : w.view.node place = .missing) : EndOnly w place .enoent
  | other (h : w.view.node place = .other) : EndOnly w place .enotdir

theorem EndOnly.stat (h : EndOnly w place e) (hw : w.Ordinary) (fin : Finality) :
    ∃ hostPath, substituteBindingStat w fin (render place) =
      if fin.isFinal then .ok (false, hostPath) else .error e := by
  rw [World.substituteBindingStat_eq hw]
  cases hhost : w.hostPath place with
  | error e' =>
    have hnode := World.node_of_hostPath_error hhost
    cases h with
    | missing h => exact absurd (hnode.symm.trans h) (by simp)
    | other h => exact absurd (hnode.symm.trans h) (by simp)
  | ok hostPath =>
    cases h with
    | missing h => exact ⟨hostPath, by simp only [h]⟩
    | other h => exact ⟨hostPath, by simp only [h]⟩

theorem EndOnly.step (h : EndOnly w (place ++ [c]) e) (hc : IsEntry c) {more : List CStr}
    (hmore : more ≠ []) : step w.view ⟨place, c :: more, follow⟩ = .ended (.failed e) := by
  rw [step_entry w.view place hc.2.1 hc.2.2]
  cases h with
  | missing h =>
    rw [h]
    simp only [List.isEmpty_eq_false_iff.2 hmore]
    rfl
  | other h =>
    rw [h]
    simp only [List.isEmpty_eq_false_iff.2 hmore]
    rfl

theorem stat_failed (hw : w.Ordinary) (hnode : w.view.node place = .failed e) (fin : Finality) :
    substituteBindingStat w fin (render place) = .error e := by
  rw [World.substituteBindingStat_eq hw]
  cases hhost : w.hostPath place with
  | error e' =>
    rw [World.node_of_hostPath_error hhost, Node.failed.injEq] at hnode
    rw [hnode]
  | ok hostPath => simp only [hnode]

theorem stat_directory (hw : w.Ordinary) (hdir : w.view.IsDirectory place) (fin : Finality) :
    ∃ hostPath, substituteBindingStat w fin (render place) = .ok (false, hostPath) := by
  obtain ⟨hostPath, hhost⟩ := World.hostPath_of_directory hdir.self
  exact ⟨hostPath, by simp only [World.substituteBindingStat_eq hw, hhost, hdir.self]⟩

/-- The check behind a link that has been followed. -/
theorem after_call (hw : w.Ordinary) {b : Config CStr} (hwalk : Walks w.view m b d)
    (hsame : ns ++ rest ≠ [] → d.follow = b.follow) {fin : Finality}
    (hfinal : fin.isFinal = decide (ns = [])) (hreach : Reaches w true d (ns ++ rest) p)
    (loop : CStr → Except Errno (CStr × Option Finality))
    (hnext : ∀ n follow, Walks w.view n b ⟨p, ns ++ rest, follow⟩ →
      (ns ++ rest ≠ [] → follow = b.follow) → w.view.IsDirectory p → (∀ d ∈ p, IsEntry d) →
      LoopMeets w derefFinal ⟨p, ns ++ rest, follow⟩ rest (level + m) (loop (render p)))
    (hdone : ns = [] → loop (render p) = .ok (render p, some fin)) :
    LoopMeets w derefFinal b rest level
      (match substituteBindingStat w fin (render p) with
      | .error e => .error e
      | .ok _ => loop (render p)) := by
  cases hreach with
  | @directory n _ follow hdir hentries hwalk' hfollow =>
    obtain ⟨hostPath, hstat⟩ := stat_directory hw hdir fin
    have hback : ns ++ rest ≠ [] → follow = b.follow := fun hne => (hfollow hne).trans (hsame hne)
    rw [hstat]
    exact .of_walks (hwalk.trans hwalk') (fun hne => hback (by simp [hne]))
      ((hnext _ follow (hwalk.trans hwalk') hback hdir hentries).mono (by omega))
  | @leaf n place c follow hdir hentries hc hwalk' hfollow hleaf =>
    obtain ⟨e, hend⟩ : ∃ e, EndOnly w (place ++ [c]) e := by
      obtain h | h | ⟨h, -⟩ := hleaf
      · exact ⟨_, .missing h⟩
      · exact ⟨_, .other h⟩
      · exact absurd h (by simp)
    obtain ⟨hostPath, hstat⟩ := hend.stat hw fin
    rw [hstat, hfinal]
    by_cases hnil : ns = []
    · subst hnil
      simp only [decide_true, if_true, hdone]
      refine ⟨place ++ [c], rfl, .leaf hdir hentries hc (hwalk.trans hwalk')
        (fun hne => (hfollow hne).trans (hsame hne)) ?_⟩
      cases hend with
      | missing h => exact .inl h
      | other h => exact .inr (.inl h)
    · rw [decide_eq_false hnil]
      exact .failed (hwalk.trans hwalk') (hend.step hc (by simp [hnil]))

/-- The round for what may only stand at the end of a name. -/
theorem loop_endOnly (hw : w.Ordinary) (hdir : w.view.IsDirectory place)
    (hentries : ∀ d ∈ place, IsEntry d) (hc : IsEntry c) (hend : EndOnly w (place ++ [c]) e)
    (hlong : ¬ pathMax ≤ (render (place ++ [c])).length + 1) {fin' : Finality}
    (hfinal : fin'.isFinal = decide (ns = [])) (symlinksFollowed : ℕ) (fin : Finality) :
    LoopMeets w derefFinal ⟨place, c :: (ns ++ rest), follow⟩ rest (level + symlinksFollowed)
      (canonicalizeLoop w recurse derefFinal level symlinksFollowed (render place) fin
        (.ok (c, fin') :: tokensOf last ns)) := by
  rw [canonicalizeLoop, if_neg hc.2.1, if_neg hc.2.2,
    joinPaths_render (fun d hd => (hentries d hd).1) hc.1, if_neg hlong]
  obtain ⟨hostPath, hstat⟩ := hend.stat hw fin'
  dsimp only
  rw [hstat, hfinal]
  by_cases hnil : ns = []
  · subst hnil
    refine loop_leaf hdir hentries hc fin' ?_
    cases hend with
    | missing h => exact .inl h
    | other h => exact .inr (.inl h)
  · rw [decide_eq_false hnil]
    exact .failed .refl (hend.step hc (by simp [hnil]))

/-- A link is followed unless it ends the name and its own name was asked for. -/
theorem follows_of_not_keep (hlast : last = .finalNormal ∨ last = .finalSlash)
    (hfollow : rest = [] → follow = (derefFinal || decide (last = .finalSlash)))
    (hkeep : ¬ ((if ns = [] then last else Finality.notFinal) = .finalNormal ∧
      ¬ derefFinal = true)) : ns ++ rest = [] → follow = true := by
  intro hnil
  obtain ⟨hnsnil, hrestnil⟩ := List.append_eq_nil_iff.1 hnil
  rw [if_pos hnsnil] at hkeep
  obtain hl | hl := hlast
  · have hd : derefFinal = true := by simpa [hl] using hkeep
    simp [hfollow hrestnil, hd]
  · simp [hfollow hrestnil, hl]

/-- The round for a link that is followed: the call for its content, and the rest of
the loop from where that call has come to. -/
theorem loop_followed (hw : w.Ordinary) (hrec : RecurseMeets w recurse level)
    (hnames : ∀ d ∈ ns ++ rest, IsName d) (hdir : w.view.IsDirectory place)
    (hentries : ∀ d ∈ place, IsEntry d) (hc : IsEntry c)
    (hclear : w.NoDescriptor ⟨place, c :: (ns ++ rest), follow⟩)
    {content : Except Errno (Bool × List CStr)} (hnode : w.view.node (place ++ [c]) = .link content)
    (hlong : ¬ pathMax ≤ (render (place ++ [c])).length + 1)
    {fin' : Finality} (hfinal : fin'.isFinal = decide (ns = []))
    (hkeep : ¬ (fin' = .finalNormal ∧ ¬ derefFinal = true))
    (hgoes : ns ++ rest = [] → follow = true) (symlinksFollowed : ℕ) (fin : Finality)
    (hnext : ∀ p follow', (ns ++ rest ≠ [] → follow' = follow) →
      w.NoDescriptor ⟨p, ns ++ rest, follow'⟩ → w.view.IsDirectory p → (∀ d ∈ p, IsEntry d) →
      LoopMeets w derefFinal ⟨p, ns ++ rest, follow'⟩ rest (level + (symlinksFollowed + 1))
        (canonicalizeLoop w recurse derefFinal level (symlinksFollowed + 1) (render p) fin'
          (tokensOf last ns))) :
    LoopMeets w derefFinal ⟨place, c :: (ns ++ rest), follow⟩ rest (level + symlinksFollowed)
      (canonicalizeLoop w recurse derefFinal level symlinksFollowed (render place) fin
        (.ok (c, fin') :: tokensOf last ns)) := by
  rw [canonicalizeLoop, if_neg hc.2.1, if_neg hc.2.2,
    joinPaths_render (fun d hd => (hentries d hd).1) hc.1, if_neg hlong]
  obtain ⟨hostPath, hhost, hmode, hcontent⟩ := World.node_link hnode
  have hstat : substituteBindingStat w fin' (render (place ++ [c])) = .ok (true, hostPath) := by
    simp only [World.substituteBindingStat_eq hw, hhost, hnode]
  have hcheck : checkLink w.tracee fin' level (render (place ++ [c])) = .proceed := by
    simp [checkLink, hw.resolve]
  have hgo : ((ns ++ rest).isEmpty && !follow) = false := by
    by_cases hnil : ns ++ rest = []
    · simp [hgoes hnil]
    · simp [List.isEmpty_eq_false_iff.2 hnil]
  have hdesc : ∀ result, readlinkProc w.tracee w.getTracee (render place) c
      (comparePaths (str "/proc") (render place)) ≠ .ok (.dontCanonicalize result) :=
    fun result hread =>
      hclear 0 _ .refl ⟨c, ns ++ rest, result, rfl, hgoes, ⟨content, hnode⟩, hread⟩
  have hstep := step_entry w.view place hc.2.1 hc.2.2 (ns ++ rest) follow
  rw [hnode] at hstep
  simp only [hgo] at hstep
  simp only [hstat, if_true, hcheck, reduceCtorEq, if_false, false_or]
  rw [if_neg hkeep, World.linkContent_eq fin' hdesc hhost hmode]
  cases hguest : w.guestContent (place ++ [c]) with
  | error e =>
    rw [hcontent, hguest] at hstep
    exact .failed .refl hstep
  | ok path =>
    rw [hcontent, hguest] at hstep
    have hfollowed : Walks w.view 1 ⟨place, c :: (ns ++ rest), follow⟩
        ⟨if IsAbsolute path then [] else place, names path ++ (ns ++ rest),
          follow || (ns ++ rest).isEmpty⟩ := by
      refine .followed (hstep.trans ?_) .refl
      simp [Except.map, Config.behindLink]
    obtain ⟨hpath, hres⟩ | hmeets := hrec path place (ns ++ rest) (follow || (ns ++ rest).isEmpty)
        (level + (symlinksFollowed + 1)) (by omega) (hclear.of_walks hfollowed) hdir hentries hnames
        (fun hnil => by simp [hnil])
    · simp only [hres]
      exact .tooLong .refl (.inr ⟨c, ns ++ rest, rfl, .inr (.inr ⟨path, hguest, hpath⟩)⟩)
    · dsimp only
      generalize recurse path (render place) (level + (symlinksFollowed + 1)) = r at hmeets ⊢
      cases r with
      | error e => exact Stuck.of_walks (w := w) hfollowed (Nat.add_assoc _ _ 1 ▸ hmeets)
      | ok guestPath =>
        obtain ⟨p, rfl, hreach⟩ := hmeets
        dsimp only
        refine after_call hw hfollowed (fun hne => ?_) hfinal hreach
          (fun guestPath => canonicalizeLoop w recurse derefFinal level (symlinksFollowed + 1)
            guestPath fin' (tokensOf last ns))
          (fun n follow' hwalk hback => hnext p follow' hback (hclear.of_walks hwalk))
          fun hnil => ?_
        · simp [List.isEmpty_eq_false_iff.2 hne]
        · rw [hnil]
          rfl

/-- **The loop keeps up with the walk.** -/
theorem loop_meets (hw : w.Ordinary) (hlast : last = .finalNormal ∨ last = .finalSlash)
    (hrec : RecurseMeets w recurse level) (hrest : ∀ d ∈ rest, IsName d)
    (hderef : rest ≠ [] → derefFinal = true) (hns : ∀ d ∈ ns, IsName d) (symlinksFollowed : ℕ)
    (fin : Finality) (hclear : w.NoDescriptor ⟨place, ns ++ rest, follow⟩)
    (hdir : w.view.IsDirectory place) (hentries : ∀ d ∈ place, IsEntry d)
    (hfollow : ns ≠ [] → rest = [] → follow = (derefFinal || decide (last = .finalSlash))) :
    LoopMeets w derefFinal ⟨place, ns ++ rest, follow⟩ rest (level + symlinksFollowed)
      (canonicalizeLoop w recurse derefFinal level symlinksFollowed (render place) fin
        (tokensOf last ns)) := by
  induction ns generalizing symlinksFollowed place follow fin with
  | nil => exact ⟨place, rfl, .directory hdir hentries .refl fun _ => rfl⟩
  | cons c ns ih =>
    have hnames : ∀ d ∈ place, IsName d := fun d hd => (hentries d hd).1
    have hcn := hns c (by simp)
    have hnsn : ∀ d ∈ ns, IsName d := fun d hd => hns d (by simp [hd])
    have hfollow' : ns ≠ [] → rest = [] → follow = (derefFinal || decide (last = .finalSlash)) :=
      fun _ => hfollow (by simp)
    rw [List.cons_append] at hclear ⊢
    rw [tokensOf]
    by_cases hlong : nameMax ≤ c.length
    · rw [if_pos hlong]
      exact .tooLong .refl (.inr ⟨c, ns ++ rest, rfl, .inl hlong⟩)
    rw [if_neg hlong]
    by_cases hdot : c = str "."
    · rw [canonicalizeLoop, if_pos hdot]
      have hstep : step w.view ⟨place, c :: (ns ++ rest), follow⟩ =
          .went ⟨place, ns ++ rest, follow⟩ := if_pos hdot
      exact .of_walks (.went hstep .refl) (fun _ => rfl)
        (ih hnsn _ _ (hclear.of_walks (.went hstep .refl)) hdir hentries hfollow')
    by_cases hdotDot : c = str ".."
    · rw [canonicalizeLoop, if_neg hdot, if_pos hdotDot, popComponent_render hnames]
      have hstep : step w.view ⟨place, c :: (ns ++ rest), follow⟩ =
          .went ⟨place.dropLast, ns ++ rest, follow⟩ := (if_neg hdot).trans (if_pos hdotDot)
      exact .of_walks (.went hstep .refl) (fun _ => rfl)
        (ih hnsn _ _ (hclear.of_walks (.went hstep .refl)) hdir.dropLast
          (fun d hd => hentries d (List.dropLast_subset place hd)) hfollow')
    have hc : IsEntry c := ⟨hcn, hdot, hdotDot⟩
    by_cases hlong' : pathMax ≤ (render (place ++ [c])).length + 1
    · rw [canonicalizeLoop, if_neg hdot, if_neg hdotDot, joinPaths_render hnames hcn, if_pos hlong']
      exact .tooLong .refl (.inr ⟨c, ns ++ rest, rfl, .inr (.inl hlong')⟩)
    have hgoes : ¬ ((if ns = [] then last else Finality.notFinal) = .finalNormal ∧
        ¬ derefFinal = true) → ns ++ rest = [] → follow = true :=
      follows_of_not_keep hlast (hfollow (by simp))
    have hkept : (if ns = [] then last else Finality.notFinal) = .finalNormal →
        ns = [] ∧ last = .finalNormal := by
      split <;> simp_all
    generalize hfin : (if ns = [] then last else Finality.notFinal) = fin' at hgoes hkept ⊢
    have hfinal : fin'.isFinal = decide (ns = []) := by
      rw [← hfin]
      by_cases hnil : ns = []
      · obtain rfl | rfl := hlast <;> simp [hnil, Finality.isFinal]
      · simp [hnil, Finality.isFinal]
    have hstep := step_entry w.view place hdot hdotDot (ns ++ rest) follow
    cases hnode : w.view.node (place ++ [c]) with
    | missing =>
      exact loop_endOnly hw hdir hentries hc (.missing hnode) hlong' hfinal symlinksFollowed fin
    | other =>
      exact loop_endOnly hw hdir hentries hc (.other hnode) hlong' hfinal symlinksFollowed fin
    | failed e =>
      rw [hnode] at hstep
      rw [canonicalizeLoop, if_neg hdot, if_neg hdotDot, joinPaths_render hnames hcn,
        if_neg hlong']
      dsimp only
      rw [stat_failed hw hnode]
      exact .failed .refl hstep
    | directory =>
      rw [hnode] at hstep
      obtain ⟨hostPath, hstat⟩ := stat_directory hw (hdir.concat hnode) fin'
      rw [canonicalizeLoop, if_neg hdot, if_neg hdotDot, joinPaths_render hnames hcn,
        if_neg hlong']
      dsimp only
      rw [hstat]
      exact .of_walks (.went hstep .refl) (fun _ => rfl)
        (ih hnsn symlinksFollowed fin' (hclear.of_walks (.went hstep .refl)) (hdir.concat hnode)
          (entries_concat hentries hc) hfollow')
    | link content =>
      by_cases hkeep : fin' = .finalNormal ∧ ¬ derefFinal = true
      · -- The name ends in a link that is not followed.
        obtain ⟨rfl, hlastn⟩ := hkept hkeep.1
        have hderef' : derefFinal = false := by simpa using hkeep.2
        obtain rfl : rest = [] := by
          by_contra hne
          exact hkeep.2 (hderef hne)
        have hff : follow = false := by simp [hfollow (by simp) rfl, hderef', hlastn]
        obtain ⟨hostPath, hhost, -, -⟩ := World.node_link hnode
        rw [canonicalizeLoop, if_neg hdot, if_neg hdotDot, joinPaths_render hnames hcn,
          if_neg hlong']
        simp only [World.substituteBindingStat_eq hw, hhost, hnode, if_true, checkLink, hw.resolve,
          reduceCtorEq, if_false, false_or, if_pos hkeep]
        exact loop_leaf hdir hentries hc fin' (.inr (.inr ⟨hderef', hff, rfl, content, hnode⟩))
      · exact loop_followed hw hrec (fun d hd => (List.mem_append.1 hd).elim (hnsn d) (hrest d))
          hdir hentries hc hclear hnode hlong' hfinal hkeep (hgoes hkeep) symlinksFollowed fin
          fun p follow' hback hclear' hdir' hentries' =>
            ih hnsn (symlinksFollowed + 1) fin' hclear' hdir' hentries' fun hne hrestnil =>
              (hback (by simp [hne])).trans (hfollow' hne hrestnil)

/-- **One call keeps up with the walk**, up to the suffix of level 0. -/
theorem body_meets (hw : w.Ordinary) (hrec : RecurseMeets w recurse level) (path : CStr)
    (derefFinal follow : Bool) (rest : List CStr) (hrest : ∀ d ∈ rest, IsName d)
    (hderef : rest ≠ [] → derefFinal = true)
    (hclear : w.NoDescriptor ⟨if IsAbsolute path then [] else place, names path ++ rest, follow⟩)
    (hdir : w.view.IsDirectory place) (hentries : ∀ d ∈ place, IsEntry d)
    (hfollow : rest = [] → follow = (derefFinal || decide (path.getLast? = some '/'))) :
    LoopMeets w derefFinal
      ⟨if IsAbsolute path then [] else place, names path ++ rest, follow⟩ rest level
      (canonicalizeLoop w recurse derefFinal level 0
        (if IsAbsolute path ∨ ¬ IsAbsolute (render place) then ['/'] else render place) .notFinal
        (nextComponents path.length path)) := by
  have hguest : (if IsAbsolute path ∨ ¬ IsAbsolute (render place) then ['/'] else render place) =
      render (if IsAbsolute path then [] else place) := by
    by_cases habs : IsAbsolute path <;> simp [habs, render_absolute]
  have hdir' : w.view.IsDirectory (if IsAbsolute path then [] else place) := by
    split
    · exact hdir.root
    · exact hdir
  have hentries' : ∀ d ∈ (if IsAbsolute path then [] else place), IsEntry d := by
    split
    · simp
    · exact hentries
  rw [hguest]
  generalize (if IsAbsolute path then [] else place) = start at hclear hdir' hentries'
  rw [nextComponents_eq le_rfl]
  by_cases hnil : names path = []
  · -- There is no component: the walk stays where it is.
    rw [if_pos hnil, hnil, List.nil_append, canonicalizeLoop, if_neg (by decide),
      if_neg (by decide), joinPaths_nil]
    by_cases hlong : pathMax ≤ (render start).length + 1
    · rw [if_pos hlong]
      exact .tooLong .refl (.inl hlong)
    · rw [if_neg hlong]
      obtain ⟨hostPath, hstat⟩ := stat_directory hw hdir' .finalNormal
      dsimp only
      rw [hstat]
      exact ⟨start, rfl, .directory hdir' hentries' .refl fun _ => rfl⟩
  · rw [if_neg hnil]
    refine loop_meets hw ?_ hrec hrest hderef (names_isName path) 0 _ hclear hdir' hentries' ?_
    · rw [lastFinality]
      split
      · exact .inr rfl
      · exact .inl rfl
    · intro _ hrestnil
      rw [hfollow hrestnil, lastFinality]
      by_cases hslash : path.getLast? = some '/' <;> simp [hslash]

/-- **Every nested call keeps up with the walk.** -/
theorem recurse_meets (hw : w.Ordinary) (fuel level : ℕ) (hfuel : w.maxSymlinks ≤ fuel + level) :
    RecurseMeets w (fun path => canonicalizeFrom w fuel path true) level := by
  induction fuel generalizing level with
  | zero =>
    intro path place rest follow level' hlt _ _ _ _ _
    exact .inr (.loop .refl (by omega))
  | succ fuel ih =>
    intro path place rest follow level' hlt hclear hdir hentries hrest hfollow
    simp only [canonicalizeFrom]
    by_cases hlevel : w.maxSymlinks < level'
    · rw [if_pos hlevel]
      exact .inr (.loop .refl (by omega))
    rw [if_neg hlevel]
    by_cases hlong : pathMax ≤ path.length
    · exact .inl ⟨hlong, by rw [if_pos hlong]⟩
    rw [if_neg hlong, if_neg (by simp [render_absolute])]
    refine .inr ?_
    have hbody := body_meets hw (ih level' (by omega)) path true follow rest hrest
      (fun _ => rfl) hclear hdir hentries fun hnil => by simp [hfollow hnil]
    generalize canonicalizeLoop w _ true level' 0 _ .notFinal _ = r at hbody
    match r, hbody with
    | .error e, hbody => exact hbody
    | .ok (guestPath, some fin), hbody =>
      have hne : level' ≠ 0 := by omega
      simp only [hne, if_false]
      exact hbody

/-- A walk with nothing left has arrived. -/
theorem Reaches.ends {c : Config CStr} (h : Reaches w derefFinal c [] p) :
    (∃ n, Ends w.view c n (.arrived p)) ∧ w.view.IsDirectory p.dropLast ∧ (∀ d ∈ p, IsEntry d) ∧
      (derefFinal = true → ∀ content, w.view.node p ≠ .link content) := by
  cases h with
  | directory hdir hentries hwalk _ =>
    refine ⟨⟨_, _, hwalk, rfl⟩, hdir.dropLast, hentries, fun _ content => ?_⟩
    simp [hdir.self]
  | leaf hdir hentries hd hwalk _ hleaf =>
    rw [List.dropLast_concat]
    refine ⟨⟨_, _, hwalk, ?_⟩, hdir, entries_concat hentries hd, fun hderef content => ?_⟩
    · rw [step_entry w.view _ hd.2.1 hd.2.2]
      obtain h | h | ⟨-, hfollow, -, content, h⟩ := hleaf
      · simp [h]
      · simp [h]
      · simp [h, hfollow]
    · obtain h | h | ⟨h, -⟩ := hleaf
      · simp [h]
      · simp [h]
      · simp [hderef] at h

end Loop

/-- A tracee that sees the host root, with a link `/l` to the directory `/d`. -/
def linkWorld : World where
  tracee := traceeAfter [.insortBinding3 (str "/") (str "/")]
  getTracee := fun _ => none
  maxSymlinks := 40
  lstat := fun path =>
    if path = str "/l" then .ok .symlink
    else if path = str "/" ∨ path = str "/d" then .ok .directory
    else .error .enoent
  readlink := fun _ => .ok (str "d")
  notifyHostPath := id
  shouldSkipFileAccessDueToF2fsBug := fun _ => false
  unset := fun _ => .other

theorem linkWorld_hostPath (place : List CStr) : linkWorld.hostPath place = .ok (render place) := by
  obtain ⟨s, hs⟩ := List.head?_eq_some_iff.1 (render_absolute place)
  have hsub : linkWorld.tracee.fs.bindings.substituteBinding .guest ('/' :: s) =
      .ok (false, '/' :: s) := rfl
  simp only [World.hostPath, hs, hsub]
  rfl

theorem linkWorld_ordinary : linkWorld.Ordinary where
  resolve := rfl
  unset := fun _ => rfl

theorem linkWorld_noDescriptor (c : Config CStr) : linkWorld.NoDescriptor c := by
  rintro n ⟨place, todo, follow⟩ - ⟨c, rest, result, -, -, ⟨content, hnode⟩, hread⟩
  obtain ⟨hostPath, hhost, hstat, -⟩ := World.node_link hnode
  rw [linkWorld_hostPath, Except.ok.injEq] at hhost
  have hl : render (place ++ [c]) = str "/l" := by
    rw [hhost]
    by_contra hne
    simp only [linkWorld, hne, if_false] at hstat
    split at hstat <;> simp at hstat
  have hplace : place = [] := by
    cases place with
    | nil => rfl
    | cons d ds =>
      rw [render_of_ne (by simp)] at hl
      have htail : d ++ Segments.flat '/' (ds ++ [c]) = ['l'] := by
        simpa [str] using hl
      have hmem : '/' ∈ d ++ Segments.flat '/' (ds ++ [c]) := by
        cases ds <;> simp
      rw [htail] at hmem
      simp at hmem
  subst hplace
  have hcmp : comparePaths (str "/proc") (render []) = .path2IsPrefix := by decide
  rw [hcmp] at hread
  simp [readlinkProc] at hread

theorem linkWorld_isDirectory : linkWorld.view.IsDirectory [] := by
  intro p hp
  rw [List.prefix_nil.1 hp]
  rfl

/-- A guest root `/r` with a link `/l` whose content is `/r/x`. -/
def hostLinkWorld : World :=
  { linkWorld with
    tracee := traceeAfter [.insortBinding3 (str "/r") (str "/")]
    lstat := fun path =>
      if path = str "/r/l" then .ok .symlink
      else if path = str "/r" ∨ path = str "/r/r" then .ok .directory
      else .ok .other
    readlink := fun _ => .ok (str "/r/x") }

end NeoProot
