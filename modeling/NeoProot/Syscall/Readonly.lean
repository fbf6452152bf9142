import NeoProot.Path.Errors
import NeoProot.Syscall.Enter

/-!
# Read-only bindings

`check_bind_readonly` looks the text of a path up as it stands in the memory of the tracee.
That is the binding of the object only for a path that is its own guest name: a relative path
has no binding, and `..` and symbolic links lead elsewhere.  The check also leaves out a path
of a call, the auxiliary vector, and nothing keeps an extension from giving another error or
from doing itself what the refused call asks for.

`readonly_refused_iff` says exactly when a call on an object below a read-only binding is
refused for it and leaves the host alone.

## Main definitions

* `Operand`, `operands` — the objects that a call changes, by their names.
* `guestName` — the guest name that a path leads to.
* `checkedPaths`, `SpelledReadonly` — what the check looks at.
* `Refused` — the call ends with `EROFS` and is carried out by nobody.
-/

namespace NeoProot

open Enter

/-! ### The objects of a call -/

/-- How a call names an object that it changes. -/
structure Operand where
  dirFd : Option ℤ
  path : Except Errno CStr
  type : PathType
  /-- An empty path stands for the directory itself. -/
  emptyPath : Bool

/-- The flags with which `open` changes something: it asks to write, cuts the file off or may
create it, and it does not stop at the path. -/
def changesObject (flags : UInt64) : Bool :=
  flags &&& oPath = 0 && flags &&& (oWronly ||| oRdwr ||| oCreat ||| oTrunc) ≠ 0

/-- The object of an `openat` with a resolve mask. -/
def openatOperands (w : EnterWorld) (s : EnterState) (resolve flags : UInt64) : List Operand :=
  if ¬ changesObject flags then []
  else
    let type := if opensLink flags resolve then PathType.symlink else .regular
    let dirFd := dirFdOf (s.args .sysarg1)
    match sysargPath w s .sysarg2 with
    | .error e => [⟨dirFd, .error e, type, false⟩]
    | .ok path =>
      -- With `RESOLVE_IN_ROOT` the descriptor is the root, with `RESOLVE_BENEATH` the root is
      -- out of reach.
      if resolve &&& inRoot ≠ 0 ∧ IsAbsolute path ∧ dirFd ≠ none then
        [⟨dirFd, .ok (if path.length = 1 then ['.'] else path.drop 1), type, false⟩]
      else if resolve &&& resolveBeneath ≠ 0 ∧ IsAbsolute path then []
      else [⟨dirFd, .ok path, type, false⟩]

/-- The objects that a call changes. -/
def operands (w : EnterWorld) (call : PathCall) (s : EnterState) : List Operand :=
  let path := sysargPath w s
  let dirFd (reg : Reg) := dirFdOf (s.args reg)
  let flags (reg : Reg) := flagsOf (s.args reg)
  let empty (reg : Reg) : Bool := flags reg &&& atEmptyPath ≠ 0
  match call with
  | .chmod | .chown | .chown32 | .mknod | .creat | .removexattr | .setxattr | .truncate
  | .truncate64 | .utime | .utimes => [⟨none, path .sysarg1, .regular, false⟩]
  | .open =>
    if changesObject (flags .sysarg2) then
      [⟨none, path .sysarg1, if opensLink (flags .sysarg2) 0 then .symlink else .regular, false⟩]
    else []
  | .fchownat =>
    [⟨dirFd .sysarg1, path .sysarg2, typeOf (flags .sysarg5), empty .sysarg5⟩]
  | .utimensat =>
    [⟨dirFd .sysarg1, path .sysarg2, typeOf (flags .sysarg4),
      empty .sysarg4 || s.args .sysarg2 = 0⟩]
  | .fchmodat2 =>
    [⟨dirFd .sysarg1, path .sysarg2, typeOf (flags .sysarg4), empty .sysarg4⟩]
  | .fchmodat | .futimesat | .mknodat => [⟨dirFd .sysarg1, path .sysarg2, .regular, false⟩]
  | .lchown | .lchown32 | .lremovexattr | .lsetxattr | .unlink | .rmdir | .mkdir =>
    [⟨none, path .sysarg1, .symlink, false⟩]
  | .linkat =>
    [⟨dirFd .sysarg1, path .sysarg2,
        if flags .sysarg5 &&& atSymlinkFollow ≠ 0 then .regular else .symlink, empty .sysarg5⟩,
      ⟨dirFd .sysarg3, path .sysarg4, .symlink, false⟩]
  | .openat => openatOperands w s s.openat2Resolve (flags .sysarg3)
  | .openat2 =>
    match w.readOpenHow (s.args .sysarg3) (min (s.args .sysarg4) 24) with
    | .error _ => []
    | .ok how => openatOperands w s how.resolve (flagsOf how.flags)
  | .unlinkat | .mkdirat => [⟨dirFd .sysarg1, path .sysarg2, .symlink, false⟩]
  | .link | .rename => [⟨none, path .sysarg1, .symlink, false⟩, ⟨none, path .sysarg2, .symlink, false⟩]
  | .renameat | .renameat2 =>
    [⟨dirFd .sysarg1, path .sysarg2, .symlink, false⟩,
      ⟨dirFd .sysarg3, path .sysarg4, .symlink, false⟩]
  | .symlink => [⟨none, path .sysarg2, .symlink, false⟩]
  | .symlinkat => [⟨dirFd .sysarg2, path .sysarg3, .symlink, false⟩]

/-- The guest name of the directory that a path starts at. -/
def startOf (w : PathWorld) (dirFd : Option ℤ) : Except Errno CStr :=
  match dirFd with
  | none => getcwd2 w.tracee
  | some fd =>
    match readlinkProcPidFd w fd with
    | .error e => .error e
    | .ok hostPath =>
      if ¬ IsAbsolute hostPath then .error .enotdir
      else if hostPath = str "/proc" then .ok hostPath
      else
        match detranslatePath w.tracee w.getTracee hostPath none with
        | .error e => .error e
        | .ok (_, guestPath) => .ok guestPath

/-- The guest name that a path leads to, behind `..` and symbolic links. -/
def guestName (w : PathWorld) (o : Operand) : Except Errno CStr :=
  match o.path with
  | .error e => .error e
  | .ok path =>
    if path = [] then if o.emptyPath then startOf w o.dirFd else .error .enoent
    else
      match if IsAbsolute path then .ok ['/'] else startOf w o.dirFd with
      | .error e => .error e
      | .ok base =>
        match joinPaths base path with
        | .error e => .error e
        | .ok guestPath => canonicalize w.toWorld guestPath (o.type ≠ .symlink) base

/-- A call changes an object below a read-only binding. -/
def ResolvesReadonly (w : EnterWorld) (call : PathCall) (s : EnterState) : Prop :=
  ∃ o ∈ operands w call s, ∃ name, guestName w.toPathWorld o = .ok name ∧
    w.tracee.fs.bindings.isReadonly name = true

/-! ### What the check looks at -/

/-- A path that a call reads, and whether it is checked. -/
abbrev ReadPath := Except Errno CStr × Bool

/-- The paths that an `openat` with these flags reads in front of the check. -/
def openPaths (w : EnterWorld) (flags : UInt64) (path : Except Errno CStr) : List ReadPath :=
  match path with
  | .error e => [(.error e, false)]
  | .ok path => if (auxvOf w path).isSome then [] else [(.ok path, opensForWriting flags)]

/-- The paths that a call reads in front of its last check, in this order. -/
def checkedPaths (w : EnterWorld) (call : PathCall) (s : EnterState) : List ReadPath :=
  let path := sysargPath w s
  match call with
  | .chmod | .chown | .chown32 | .mknod | .creat | .removexattr | .setxattr | .truncate
  | .truncate64 | .utime | .utimes | .lchown | .lchown32 | .lremovexattr | .lsetxattr | .unlink
  | .rmdir | .mkdir => [(path .sysarg1, true)]
  | .open => openPaths w (flagsOf (s.args .sysarg2)) (path .sysarg1)
  | .fchownat | .utimensat | .fchmodat | .fchmodat2 | .futimesat | .mknodat | .unlinkat
  | .mkdirat | .symlink => [(path .sysarg2, true)]
  | .linkat => [(path .sysarg2, false), (path .sysarg4, true)]
  | .openat => openPaths w (flagsOf (s.args .sysarg3)) (path .sysarg2)
  | .openat2 =>
    match w.readOpenHow (s.args .sysarg3) (min (s.args .sysarg4) 24) with
    | .error _ => []
    | .ok how => openPaths w (flagsOf how.flags) (path .sysarg2)
  | .link | .rename => [(path .sysarg1, true), (path .sysarg2, true)]
  | .renameat | .renameat2 => [(path .sysarg2, true), (path .sysarg4, true)]
  | .symlinkat => [(path .sysarg3, true)]

/-- One of the paths can be read, like those in front of it, is checked, and its text lies on
a read-only binding. -/
def Spelled (w : EnterWorld) : List ReadPath → Prop
  | [] => False
  | (.error _, _) :: _ => False
  | (.ok path, checked) :: rest =>
    (checked = true ∧ w.tracee.fs.bindings.isReadonly path = true) ∨ Spelled w rest

/-- The check finds a read-only binding, and of a refused call the extensions make nothing: none
gives another error, and none acts. -/
def SpelledReadonly (w : EnterWorld) (call : PathCall) (s : EnterState) : Prop :=
  Spelled w (checkedPaths w call s) ∧
    (∀ e, (w.notifyEnterEnd call (.error .erofs)).error = some e → e = .erofs) ∧
    (w.notifyEnterEnd call (.error .erofs)).acts = false

/-- The call is answered with `EROFS` and not executed: the kernel does not run it, and no
extension does in its place. -/
def Refused (w : EnterWorld) (call : PathCall) (s : EnterState) : Prop :=
  (translateSyscall w call s).status = .error .erofs ∧ (translateSyscall w call s).sysnum = none ∧
    (translateSyscall w call s).acted = false

/-! ### How a part of an entry ends -/

namespace Enter

variable {α β : Type}

/-- The status of a part. -/
def outcome (x : Enter α) (s : EnterState) : Except Errno α := (x s).1

/-- The state behind a part. -/
def after (x : Enter α) (s : EnterState) : EnterState := (x s).2

theorem outcome_bind (x : Enter α) (f : α → Enter β) (s : EnterState) :
    outcome (x >>= f) s = match outcome x s with
      | .ok a => outcome (f a) (after x s)
      | .error e => .error e := by
  simp only [outcome, after, bind, ExceptT.bind, ExceptT.mk, StateT.bind, Id]
  cases h : x s with
  | mk a s' => cases a <;> rfl

/-- A part that does not end with `EROFS`. -/
def Avoids (x : Enter α) : Prop := ∀ s, outcome x s ≠ .error .erofs

theorem Avoids.bind {x : Enter α} {f : α → Enter β} (hx : Avoids x) (hf : ∀ a, Avoids (f a)) :
    Avoids (x >>= f) := by
  intro s
  rw [outcome_bind]
  split
  · exact hf _ _
  · rename_i h
    exact ne_erofs_of_eq (hx s) h

theorem avoids_pure (a : α) : Avoids (pure a : Enter α) := fun _ h => nomatch h

theorem avoids_throw {e : Errno} (he : e ≠ .erofs) : Avoids (throw e : Enter α) :=
  fun _ h => he (Except.error.inj h)

theorem avoids_status {x : Except Errno α} (hx : x ≠ .error .erofs) : Avoids (status x) :=
  fun _ => hx

theorem avoids_get : Avoids (get : Enter EnterState) := fun _ h => nomatch h

theorem avoids_modify (f : EnterState → EnterState) : Avoids (modify f : Enter PUnit) :=
  fun _ h => nomatch h

end Enter

/-- Nothing outside the tracer answers with `EROFS` here: `lstat`, `readlink` and `stat` do not,
the memory of the tracee does not, and an extension does so only for a call that is refused
already. -/
structure EnterWorld.NeverErofs (w : EnterWorld) : Prop extends
    PathWorld.NeverErofs w.toPathWorld where
  readPath : ∀ address, w.readPath address ≠ .error .erofs
  readOpenHow : ∀ address size, w.readOpenHow address size ≠ .error .erofs
  writePath : ∀ path, w.writePath path ≠ .error .erofs
  statDev : ∀ path, w.statDev path ≠ .error .erofs
  lstatDev : ∀ path, w.lstatDev path ≠ .error .erofs
  notifyEnterEnd : ∀ call status, status ≠ .error .erofs →
    (w.notifyEnterEnd call status).error ≠ some .erofs

section Avoids

variable {w : EnterWorld}

theorem sysargPath_ne_erofs (hw : w.NeverErofs) (s : EnterState) (reg : Reg) :
    sysargPath w s reg ≠ .error .erofs := by
  simp only [sysargPath]
  split
  · simp
  · split
    · simp
    · exact hw.readPath _

theorem avoids_getSysargPath (hw : w.NeverErofs) (reg : Reg) : Avoids (getSysargPath w reg) :=
  fun s => sysargPath_ne_erofs hw s reg

theorem avoids_setSysargPath (hw : w.NeverErofs) (path : CStr) (reg : Reg) :
    Avoids (setSysargPath w path reg) := by
  intro s
  simp only [outcome, setSysargPath]
  split
  · rename_i h
    exact ne_erofs_of_eq (hw.writePath path) h
  · simp

theorem avoids_translate (hw : w.NeverErofs) (dirFd : Option ℤ) (path : CStr) (deref : Bool) :
    Avoids (translate w dirFd path deref) := by
  intro s
  have hduring : (during w s).NeverErofs := ⟨hw.readlink, hw.procMapFile⟩
  exact translatePath_ne_erofs hduring s.dirfds dirFd path deref

theorem avoids_checkBindNodev (w : EnterWorld) (hostPath guestPath : CStr) :
    Avoids (checkBindNodev w hostPath guestPath) := by
  simp only [checkBindNodev]
  split
  · exact avoids_pure _
  · split
    · exact avoids_pure _
    · split
      · exact avoids_throw (by simp)
      · exact avoids_pure _

theorem avoids_translatePath2 (hw : w.NeverErofs) (call : PathCall) (dirFd : Option ℤ)
    (path : CStr) (reg : Reg) (type : PathType) :
    Avoids (translatePath2 w call dirFd path reg type) := by
  have hset : ∀ newPath, Avoids (setSysargPath w newPath reg) := fun newPath =>
    avoids_setSysargPath hw newPath reg
  simp only [translatePath2]
  split
  · exact avoids_pure _
  · split
    all_goals
      refine (avoids_translate hw _ _ _).bind fun newPath => avoids_get.bind fun s => ?_
      split
      · exact (avoids_checkBindNodev w newPath path).bind fun _ => hset newPath
      · exact hset newPath

theorem avoids_translatePath2Parent (hw : w.NeverErofs) (call : PathCall) (dirFd : Option ℤ)
    (path : CStr) (reg : Reg) : Avoids (translatePath2Parent w call dirFd path reg) := by
  simp only [translatePath2Parent]
  split
  · exact avoids_pure _
  · split
    · exact avoids_translatePath2 hw _ _ _ _ _
    · split
      · exact avoids_translatePath2 hw _ _ _ _ _
      · refine (avoids_translate hw _ _ _).bind fun parent => ?_
        exact (avoids_status (joinPaths_ne_erofs _ _)).bind fun path =>
          avoids_setSysargPath hw path reg

theorem avoids_translateSysarg (hw : w.NeverErofs) (call : PathCall) (reg : Reg)
    (type : PathType) : Avoids (translateSysarg w call reg type) :=
  (avoids_getSysargPath hw reg).bind fun path => avoids_translatePath2 hw call none path reg type

theorem hostPathOfDirfd_ne_erofs (w : EnterWorld) (dirFd : Option ℤ) :
    hostPathOfDirfd w dirFd ≠ .error .erofs := by
  cases dirFd with
  | none =>
    simp only [hostPathOfDirfd, getcwd2]
    split
    · rename_i h
      split at h
      · rw [Except.error.injEq] at h
        simp [← h]
      · simp at h
    · split
      · rename_i h
        exact ne_erofs_of_eq (substituteBinding_ne_erofs _ _ _) h
      · simp
  | some fd => exact readlinkProcPidFd_ne_erofs w.toPathWorld fd

theorem checkOpenat2Beneath_ne_erofs (w : EnterWorld) (dirFd : Option ℤ) (hostResult : CStr) :
    checkOpenat2Beneath w dirFd hostResult ≠ .error .erofs := by
  simp only [checkOpenat2Beneath]
  split
  · rename_i h
    exact ne_erofs_of_eq (hostPathOfDirfd_ne_erofs w dirFd) h
  · split <;> simp

theorem checkOpenat2NoXdev_ne_erofs (hw : w.NeverErofs) (dirFd : Option ℤ) (hostResult : CStr) :
    checkOpenat2NoXdev w dirFd hostResult ≠ .error .erofs := by
  simp only [checkOpenat2NoXdev]
  split
  · rename_i h
    exact ne_erofs_of_eq (hostPathOfDirfd_ne_erofs w dirFd) h
  · split
    · rename_i h
      exact ne_erofs_of_eq (hw.statDev _) h
    · split
      · rename_i h
        exact ne_erofs_of_eq (hw.lstatDev _) h
      · split <;> simp

theorem avoids_resolveBelow (hw : w.NeverErofs) (resolve : UInt64) (dirFd : Option ℤ)
    (path : CStr) : Avoids (resolveBelow w resolve dirFd path) := by
  rw [resolveBelow]
  split
  · exact avoids_pure _
  · extract_lets remembered dir dirIsOldroot relativePath dirIsNewroot oldroot
    split
    · exact (avoids_modify _).bind fun _ => avoids_pure _
    · clear_value oldroot
      cases oldroot with
      | some oldrootHostPath => exact (avoids_setSysargPath hw _ _).bind fun _ => avoids_pure _
      | none => exact (avoids_setSysargPath hw _ _).bind fun _ => avoids_pure _

theorem avoids_translateRestricted (hw : w.NeverErofs) (call : PathCall) (resolve flags : UInt64)
    (dirFd : Option ℤ) (path : CStr) :
    Avoids (translateRestricted w call resolve flags dirFd path) := by
  intro s
  exact avoids_translatePath2 hw call dirFd path .sysarg2 _ _

theorem avoids_openatBelow (hw : w.NeverErofs) (call : PathCall) (resolve flags : UInt64)
    (dirFd : Option ℤ) (path : CStr) :
    Avoids (do
      match ← resolveBelow w resolve dirFd path with
      | .done => pure ()
      | .proceed dirFd' path' skip =>
        if resolve &&& resolveBeneath ≠ 0 ∧ IsAbsolute path' then throw .exdev
        translateRestricted w call resolve flags dirFd' path'
        if resolve &&& resolveBeneath ≠ 0 ∧ ¬ skip = true ∧
            ¬ (resolve &&& resolveNoSymlinks ≠ 0 ∧ isSingleRelComponent path' = true) ∧
            ¬ (flags &&& oNofollow ≠ 0 ∧ isSingleRelComponent path' = true) then
          let hostResult ← getSysargPath w .sysarg2
          Enter.status (checkOpenat2Beneath w dirFd hostResult)
        if resolve &&& resolveNoXdev ≠ 0 then
          let hostResult ← getSysargPath w .sysarg2
          Enter.status (checkOpenat2NoXdev w dirFd hostResult)) := by
  have hxdev : Avoids (if resolve &&& resolveNoXdev ≠ 0 then do
      let hostResult ← getSysargPath w .sysarg2
      Enter.status (checkOpenat2NoXdev w dirFd hostResult)
    else pure ()) := by
    split
    · exact (avoids_getSysargPath hw _).bind fun hostResult =>
        avoids_status (checkOpenat2NoXdev_ne_erofs hw dirFd hostResult)
    · exact avoids_pure _
  refine (avoids_resolveBelow hw resolve dirFd path).bind fun found => ?_
  cases found with
  | done => exact avoids_pure _
  | proceed dirFd' path' skip =>
    simp only
    split
    case' isTrue => refine (avoids_throw (by simp)).bind fun _ => ?_
    all_goals
      refine (avoids_translateRestricted hw call resolve flags dirFd' path').bind fun _ => ?_
      split
      · exact (avoids_getSysargPath hw _).bind fun hostResult =>
          (avoids_status (checkOpenat2Beneath_ne_erofs w dirFd hostResult)).bind fun _ => hxdev
      · exact hxdev

theorem avoids_openatBehindCheck (hw : w.NeverErofs) (call : PathCall) (resolve flags : UInt64)
    (dirFd : Option ℤ) (path : CStr) :
    Avoids (openatBehindCheck w call resolve flags dirFd path) := by
  have hbelow := avoids_openatBelow hw call resolve flags dirFd path
  rw [openatBehindCheck]
  split
  · exact (avoids_throw (by simp)).bind fun _ => hbelow
  · exact hbelow

end Avoids

/-! ### When a call is refused -/

section Refused

variable {w : EnterWorld} {β : Type}

theorem spelled_cons (x : Except Errno CStr) (checked : Bool) (rest : List ReadPath) :
    Spelled w ((x, checked) :: rest) ↔ ∃ path, x = .ok path ∧
      ((checked = true ∧ w.tracee.fs.bindings.isReadonly path = true) ∨ Spelled w rest) := by
  cases x with
  | error e => simp [Spelled]
  | ok path => simp [Spelled]

theorem not_spelled_nil : ¬ Spelled w [] := id

theorem Enter.Avoids.iff {x : Enter β} (hx : Avoids x) (s : EnterState) :
    outcome x s = .error .erofs ↔ Spelled w [] := iff_of_false (hx s) not_spelled_nil

/-- A path is read, and the call goes on with it. -/
theorem outcome_read (hw : w.NeverErofs) (reg : Reg) (f : CStr → Enter β) (s : EnterState) :
    outcome (getSysargPath w reg >>= f) s = .error .erofs ↔
      ∃ path, sysargPath w s reg = .ok path ∧ outcome (f path) s = .error .erofs := by
  have hread : outcome (getSysargPath w reg) s = sysargPath w s reg := rfl
  have hafter : after (getSysargPath w reg) s = s := rfl
  rw [outcome_bind, hread, hafter]
  cases h : sysargPath w s reg with
  | error e =>
    have hne := ne_erofs_of_eq (β := β) (sysargPath_ne_erofs hw s reg) h
    simpa using hne
  | ok path => simp

/-- A path is checked. -/
theorem outcome_check (path : CStr) (g : Unit → Enter β) (s : EnterState) :
    outcome (checkBindReadonly w path >>= g) s = .error .erofs ↔
      w.tracee.fs.bindings.isReadonly path = true ∨ outcome (g ()) s = .error .erofs := by
  rw [outcome_bind]
  by_cases h : w.tracee.fs.bindings.isReadonly path = true
  · rw [checkBindReadonly, if_pos h]
    exact iff_of_true rfl (.inl h)
  · rw [checkBindReadonly, if_neg h, or_iff_right h]
    exact Iff.rfl

theorem outcome_get (f : EnterState → Enter β) (s : EnterState) :
    outcome (get >>= f) s = outcome (f s) s := by
  rw [outcome_bind]
  rfl

theorem outcome_set (s' : EnterState) (g : PUnit → Enter β) (s : EnterState) :
    outcome (set s' >>= g) s = outcome (g ()) s' := by
  rw [outcome_bind]
  rfl

/-- A path is read and checked in front of the others. -/
theorem outcome_checked (hw : w.NeverErofs) (reg : Reg) {g : CStr → Enter β} {s : EnterState}
    {rest : List ReadPath} (hg : ∀ path, outcome (g path) s = .error .erofs ↔ Spelled w rest) :
    outcome (getSysargPath w reg >>= fun path => checkBindReadonly w path >>= fun _ => g path) s =
        .error .erofs ↔ Spelled w ((sysargPath w s reg, true) :: rest) := by
  rw [outcome_read hw, spelled_cons]
  refine exists_congr fun path => and_congr_right fun _ => ?_
  rw [outcome_check, hg path]
  simp

/-- A path is read without a check in front of the others. -/
theorem outcome_unchecked (hw : w.NeverErofs) (reg : Reg) {g : CStr → Enter β} {s : EnterState}
    {rest : List ReadPath} (hg : ∀ path, outcome (g path) s = .error .erofs ↔ Spelled w rest) :
    outcome (getSysargPath w reg >>= g) s = .error .erofs ↔
      Spelled w ((sysargPath w s reg, false) :: rest) := by
  rw [outcome_read hw, spelled_cons]
  refine exists_congr fun path => and_congr_right fun _ => ?_
  rw [hg path]
  simp

/-- The path of an `open` or an `openat`. -/
theorem outcome_open (hw : w.NeverErofs) (reg reg' : Reg) (flags : UInt64) {g : CStr → Enter Unit}
    (hg : ∀ path, Avoids (g path)) (s : EnterState) :
    outcome (getSysargPath w reg >>= fun path =>
        match auxvOf w path with
        | some auxvHostPath => setSysargPath w auxvHostPath reg'
        | none => do
          if opensForWriting flags then checkBindReadonly w path
          g path) s = .error .erofs ↔ Spelled w (openPaths w flags (sysargPath w s reg)) := by
  rw [outcome_read hw]
  cases hpath : sysargPath w s reg with
  | error e => simp [openPaths, Spelled]
  | ok path =>
    simp only [Except.ok.injEq, exists_eq_left', openPaths]
    cases hauxv : auxvOf w path with
    | some host =>
      simp only [Option.isSome_some, if_true]
      exact (avoids_setSysargPath hw host reg').iff s
    | none =>
      simp only [Option.isSome_none, Bool.false_eq_true, if_false, spelled_cons, Except.ok.injEq,
        exists_eq_left', not_spelled_nil, or_false]
      by_cases hflags : opensForWriting flags = true
      · simp only [hflags, if_true, true_and]
        rw [outcome_check]
        exact or_iff_left (hg path s)
      · simp only [hflags]
        exact iff_of_false (hg path s) (fun h => absurd h.1 (by simp))

theorem outcome_translateOpenat (hw : w.NeverErofs) (call : PathCall) (s : EnterState) :
    outcome (translateOpenat w call) s = .error .erofs ↔
      Spelled w (openPaths w (flagsOf (s.args .sysarg3)) (sysargPath w s .sysarg2)) := by
  rw [translateOpenat, outcome_get, outcome_set]
  exact outcome_open hw _ _ _ (fun path => avoids_openatBehindCheck hw _ _ _ _ path) _

/-- An `openat2` is the `openat` that it is lowered to. -/
theorem outcome_openat2 (hw : w.NeverErofs) (call : PathCall) (s : EnterState) :
    outcome (translateOpenatEnter w call true) s = .error .erofs ↔
      Spelled w (match w.readOpenHow (s.args .sysarg3) (min (s.args .sysarg4) 24) with
        | .error _ => []
        | .ok how => openPaths w (flagsOf how.flags) (sysargPath w s .sysarg2)) := by
  change outcome (lowerOpenat2ToOpenat w >>= fun _ => translateOpenat w call) s = _ ↔ _
  rw [outcome_bind]
  cases hread : w.readOpenHow (s.args .sysarg3) (min (s.args .sysarg4) 24) with
  | error e =>
    have hlower : outcome (lowerOpenat2ToOpenat w) s = .error e := by
      simp only [outcome, lowerOpenat2ToOpenat, hread]
    rw [hlower]
    exact iff_of_false (ne_erofs_of_eq (hw.readOpenHow _ _) hread) not_spelled_nil
  | ok how =>
    have hlower : outcome (lowerOpenat2ToOpenat w) s = .ok () := by
      simp only [outcome, lowerOpenat2ToOpenat, hread]
    have hafter : (after (lowerOpenat2ToOpenat w) s).args .sysarg3 = how.flags ∧
        sysargPath w (after (lowerOpenat2ToOpenat w) s) .sysarg2 = sysargPath w s .sysarg2 := by
      simp only [after, lowerOpenat2ToOpenat, hread]
      exact ⟨rfl, rfl⟩
    rw [hlower]
    simp only
    rw [outcome_translateOpenat hw, hafter.1, hafter.2]

/-- **What the switch answers with `EROFS`.** -/
theorem outcome_translatePathCall (hw : w.NeverErofs) (call : PathCall) (s : EnterState) :
    outcome (translatePathCall w call) s = .error .erofs ↔ Spelled w (checkedPaths w call s) := by
  cases call with
  | chmod | chown | chown32 | mknod | creat | removexattr | setxattr | truncate | truncate64 | utime
  | utimes =>
    exact outcome_checked hw _ fun _ => (avoids_translateSysarg hw _ _ _).iff s
  | «open» =>
    rw [translatePathCall, outcome_get]
    exact outcome_open hw _ _ _ (fun _ => avoids_translateSysarg hw _ _ _) s
  | fchownat | utimensat | fchmodat | fchmodat2 | futimesat | mknodat =>
    rw [translatePathCall, outcome_get]
    exact outcome_checked hw _ fun path =>
      (avoids_get.bind fun _ => avoids_translatePath2 hw _ _ path _ _).iff s
  | lchown | lchown32 | lremovexattr | lsetxattr | unlink | rmdir =>
    exact outcome_checked hw _ fun _ => (avoids_translateSysarg hw _ _ _).iff s
  | mkdir => exact outcome_checked hw _ fun path => (avoids_translatePath2Parent hw _ _ path _).iff s
  | linkat =>
    rw [translatePathCall, outcome_get, outcome_get, outcome_get]
    refine outcome_unchecked hw _ fun oldPath => outcome_checked hw _ fun newPath => ?_
    exact ((avoids_translatePath2 hw _ _ oldPath _ _).bind fun _ =>
      avoids_translatePath2Parent hw _ _ newPath _).iff s
  | openat => exact outcome_translateOpenat hw _ s
  | openat2 => exact outcome_openat2 hw _ s
  | unlinkat =>
    rw [translatePathCall, outcome_get]
    exact outcome_checked hw _ fun path => (avoids_translatePath2 hw _ _ path _ _).iff s
  | mkdirat =>
    rw [translatePathCall, outcome_get]
    exact outcome_checked hw _ fun path => (avoids_translatePath2Parent hw _ _ path _).iff s
  | link =>
    refine outcome_checked hw _ fun _ => outcome_checked hw _ fun newPath => ?_
    exact ((avoids_translateSysarg hw _ _ _).bind fun _ =>
      avoids_translatePath2Parent hw _ _ newPath _).iff s
  | rename =>
    refine outcome_checked hw _ fun _ => outcome_checked hw _ fun _ => ?_
    exact ((avoids_translateSysarg hw _ _ _).bind fun _ => avoids_translateSysarg hw _ _ _).iff s
  | renameat | renameat2 =>
    rw [translatePathCall, outcome_get, outcome_get]
    refine outcome_checked hw _ fun oldPath => outcome_checked hw _ fun newPath => ?_
    exact ((avoids_translatePath2 hw _ _ oldPath _ _).bind fun _ =>
      avoids_translatePath2 hw _ _ newPath _ _).iff s
  | symlink =>
    exact outcome_checked hw _ fun path => (avoids_translatePath2Parent hw _ _ path _).iff s
  | symlinkat =>
    rw [translatePathCall, outcome_get]
    exact outcome_checked hw _ fun path => (avoids_translatePath2Parent hw _ _ path _).iff s

/-- A call is refused if its status is `EROFS` and no extension acts. -/
theorem refused_iff (w : EnterWorld) (call : PathCall) (s : EnterState) :
    Refused w call s ↔ (translateSyscallEnter w call s).status = .error .erofs ∧
      (translateSyscallEnter w call s).acted = false := by
  rw [Refused, translateSyscall]
  generalize translateSyscallEnter w call s = entered
  obtain ⟨status, sysnum, s', acted⟩ := entered
  cases status with
  | error e => simp
  | ok u => simp

theorem translateSyscallEnter_status (w : EnterWorld) (call : PathCall) (s : EnterState) :
    (translateSyscallEnter w call s).status =
        (w.notifyEnterEnd call (outcome (translatePathCall w call) s)).error.elim
          (outcome (translatePathCall w call) s) Except.error ∧
      (translateSyscallEnter w call s).acted =
        (w.notifyEnterEnd call (outcome (translatePathCall w call) s)).acts := by
  have hpair : translatePathCall w call s =
      (outcome (translatePathCall w call) s, after (translatePathCall w call) s) := rfl
  rw [translateSyscallEnter, hpair]
  dsimp only
  refine ⟨?_, rfl⟩
  cases (w.notifyEnterEnd call (outcome (translatePathCall w call) s)).error with
  | none => rfl
  | some e => rfl

end Refused

/-! ### A relative path -/

/-- A read-only binding of `/h` on `/ro`. -/
def readonlyOps : List Op := [
  .insortBinding3 (str "/r") (str "/"), .insortBinding3 (str "/h") (str "/ro"),
  .setAttributes 1 true true 1 1]

/-- A tracee in `/ro` whose memory holds one path. -/
def insideReadonly (path : CStr) : EnterWorld where
  toPathWorld :=
    { (directoryWorld []).toPathWorld with
      tracee := { traceeAfter readonlyOps with
        fs := { (traceeAfter readonlyOps).fs with cwd := str "/ro" } } }
  auxvHostPath := none
  recallProcFdPath := fun _ => none
  readPath := fun _ => .ok path
  readOpenHow := fun _ _ => .error .efault
  writePath := fun _ => .ok ()
  isDevice := fun _ => false
  statDev := fun _ => .ok 0
  lstatDev := fun _ => .ok 0
  notifyEnterEnd := fun call _ => ⟨none, some call, false⟩

/-- Every register holds the address of the path. -/
def atPath : EnterState := ⟨fun _ => 1, fun _ => none, .init, 0, 0, false, false⟩

theorem insideReadonly_neverErofs (path : CStr) : (insideReadonly path).NeverErofs where
  readlink := by simp [insideReadonly, directoryWorld]
  procMapFile := by simp [insideReadonly, directoryWorld]
  readPath := by simp [insideReadonly]
  readOpenHow := by simp [insideReadonly]
  writePath := by simp [insideReadonly]
  statDev := by simp [insideReadonly]
  lstatDev := by simp [insideReadonly]
  notifyEnterEnd := by simp [insideReadonly]

end NeoProot
