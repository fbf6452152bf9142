import NeoProot.Path.Dirfd
import NeoProot.Syscall.Exit
import NeoProot.Syscall.Mount

/-!
# Entering a system call that changes what a path names

`translate_syscall_enter` reads the paths of a call from the memory of the tracee, refuses the
call if a path lies on a read-only binding, and puts the host paths in the place of the guest
paths.  It has a case for every such call, and `openat` has a function of its own because
`openat2` is lowered to it.

The cases that only look at a path, and those of calls without one, are not here.  The
extensions are asked before the switch, where none of them has anything to say about these
calls, and behind it: there an error of theirs replaces the one of the switch, and one of them
may do itself what the call asks for, whatever the status is.

## Main definitions

* `EnterWorld`, `EnterState`, `Enter` — the surroundings and the state of an entry.
* `checkBindReadonly`, `translatePath2`, `translatePath2Parent` — what the cases share.
* `translateOpenatEnter`, `translatePathCall` — the cases.
* `translateSyscallEnter`, `translateSyscall` — the entry, and the call that comes of it.
-/

namespace NeoProot

/-- The calls that change what a path names, under the labels of the switch. -/
inductive PathCall
  | chmod | chown | chown32 | mknod | creat | removexattr | setxattr | truncate | truncate64
  | utime | utimes
  | open
  | fchownat | utimensat
  | fchmodat | fchmodat2 | futimesat | mknodat
  | lchown | lchown32 | lremovexattr | lsetxattr | unlink | rmdir
  | mkdir | linkat | openat | openat2 | unlinkat | mkdirat | link | rename | renameat | renameat2
  | symlink | symlinkat
  deriving DecidableEq, Repr

/-- `Type`: whether a link at the end of the path is followed. -/
inductive PathType
  | regular | symlink
  deriving DecidableEq, Repr

/-- `struct proot_open_how`. -/
structure OpenHow where
  flags : UInt64
  mode : UInt64
  resolve : UInt64
  deriving DecidableEq, Repr

/-- What the extensions make of the end of an entry. -/
structure EnterEnd where
  /-- The error that `notify_extensions` gives. -/
  error : Option Errno
  /-- The number of the call, which is set to `PR_void` for a link that is made already. -/
  sysnum : Option PathCall
  /-- An extension renames, links or unlinks files of the host: link2symlink for a call on one
  of its links. -/
  acts : Bool

/-- The surroundings of an entry. -/
structure EnterWorld extends PathWorld where
  auxvHostPath : Option CStr
  recallProcFdPath : ℤ → Option CStr
  /-- `read_path`. -/
  readPath : UInt64 → Except Errno CStr
  /-- `read_data` of so many bytes of a `proot_open_how`, the rest being zero. -/
  readOpenHow : UInt64 → UInt64 → Except Errno OpenHow
  /-- The memory that `set_sysarg_path` takes from the tracee. -/
  writePath : CStr → Except Errno Unit
  /-- `stat` finds a device. -/
  isDevice : CStr → Bool
  /-- `st_dev`, by `stat` and by `lstat`. -/
  statDev : CStr → Except Errno UInt64
  lstatDev : CStr → Except Errno UInt64
  /-- `notify_extensions(SYSCALL_ENTER_END)`, for a call and its status. -/
  notifyEnterEnd : PathCall → Except Errno Unit → EnterEnd

/-- The state of an entry: the registers, the paths that the tracer has put behind some of
them, the cache of directory names and the fields of the tracee that the cases set. -/
structure EnterState where
  args : Reg → UInt64
  written : Reg → Option CStr
  dirfds : DirfdCache
  openat2Resolve : UInt64
  openat2Oflags : UInt64
  lowered : Bool
  /-- `sysexit_pending`, with `restart_how` at `PTRACE_SYSCALL`. -/
  exitRequested : Bool

/-- A part of an entry: its status and the state behind it. -/
abbrev Enter := ExceptT Errno (StateM EnterState)

/-! ### Flags -/

def oWronly : UInt64 := 0x1
def oRdwr : UInt64 := 0x2
def oCreat : UInt64 := 0x40
def oExcl : UInt64 := 0x80
def oTrunc : UInt64 := 0x200
def oAppend : UInt64 := 0x400
def atSymlinkNofollow : UInt64 := 0x100
def atSymlinkFollow : UInt64 := 0x400
def atEmptyPath : UInt64 := 0x1000
def resolveNoXdev : UInt64 := 0x01
def resolveBeneath : UInt64 := 0x08
def resolveCached : UInt64 := 0x20

/-- `RESOLVE_IN_ROOT`, as a bit of the mask. -/
def inRoot : UInt64 := 0x10
def msNodev : UInt64 := 4

/-- `PROOT_RESOLVE_KNOWN`. -/
def resolveKnown : UInt64 :=
  resolveNoXdev ||| resolveNoMagiclinks ||| resolveNoSymlinks ||| resolveBeneath |||
    inRoot ||| resolveCached

/-- `(int) word`, of a register that holds flags. -/
def flagsOf (word : UInt64) : UInt64 := word &&& 0xFFFFFFFF

/-- `(int) word`, of a register that holds a directory descriptor: none is `AT_FDCWD`. -/
def dirFdOf (word : UInt64) : Option ℤ := if asInt word = -100 then none else some (asInt word)

namespace Enter

/-- The tracee during the entry. -/
def during (w : EnterWorld) (s : EnterState) : PathWorld :=
  { w.toPathWorld with
    tracee := { w.tracee with
      openat2Resolve := s.openat2Resolve, openat2Oflags := s.openat2Oflags } }

/-- `get_sysarg_path`, of a register in a state. -/
def sysargPath (w : EnterWorld) (s : EnterState) (reg : Reg) : Except Errno CStr :=
  match s.written reg with
  | some path => .ok path
  | none => if s.args reg = 0 then .ok [] else w.readPath (s.args reg)

/-- `get_sysarg_path`. -/
def getSysargPath (w : EnterWorld) (reg : Reg) : Enter CStr := fun s => (sysargPath w s reg, s)

/-- `set_sysarg_path`. -/
def setSysargPath (w : EnterWorld) (path : CStr) (reg : Reg) : Enter Unit := fun s =>
  match w.writePath path with
  | .error e => (.error e, s)
  | .ok () => (.ok (), { s with written := Function.update s.written reg (some path) })

/-- A call that gives a status. -/
def status {α : Type} (x : Except Errno α) : Enter α := fun s => (x, s)

/-- `translate_path`. -/
def translate (w : EnterWorld) (dirFd : Option ℤ) (userPath : CStr) (derefFinal : Bool) :
    Enter CStr := fun s =>
  let (result, dirfds) := translatePath (during w s) s.dirfds dirFd userPath derefFinal
  (result, { s with dirfds := dirfds })

end Enter

open Enter

/-- A path lies on a read-only binding, as `check_bind_readonly` finds it. -/
def Bindings.isReadonly (t : Bindings) (guestPath : CStr) : Bool :=
  (t.getBinding .guest guestPath).any (·.readonly)

/-- `check_bind_readonly`. -/
def checkBindReadonly (w : EnterWorld) (guestPath : CStr) : Enter Unit :=
  if w.tracee.fs.bindings.isReadonly guestPath then throw .erofs else pure ()

/-- `check_bind_nodev`. -/
def checkBindNodev (w : EnterWorld) (hostPath guestPath : CStr) : Enter Unit :=
  let t := w.tracee.fs.bindings
  let binding :=
    if IsAbsolute guestPath then t.getBinding .guest guestPath else t.getBinding .host hostPath
  match binding with
  | none => pure ()
  | some b =>
    if b.mountFlags &&& msNodev = 0 then pure ()
    else if w.isDevice hostPath then throw .eacces
    else pure ()

/-- `is_proc_fd_mountinfo`. -/
def isProcFdMountinfo (w : EnterWorld) (dirFd : Option ℤ) (userPath : CStr) : Bool :=
  match dirFd with
  | none => false
  | some fd =>
    (userPath = str "self/mountinfo" || userPath = str "thread-self/mountinfo") &&
      match readlinkProcPidFd w.toPathWorld fd with
      | .error _ => false
      | .ok procPath => procPath = str "/proc"

/-- The calls for which `translate_path2` looks at `nodev`. -/
def opensDevice (call : PathCall) (s : EnterState) : Bool :=
  match call with
  | .open => s.args .sysarg2 &&& oPath = 0
  | .openat | .openat2 => s.args .sysarg3 &&& oPath = 0
  | .creat => true
  | _ => false

/-- `translate_path2`. -/
def translatePath2 (w : EnterWorld) (call : PathCall) (dirFd : Option ℤ) (path : CStr) (reg : Reg)
    (type : PathType) : Enter Unit :=
  if path = [] then pure ()
  else do
    let newPath ←
      if isProcFdMountinfo w dirFd path then
        translate w none (procPath w.tracee.pid ++ str "/mountinfo") (type ≠ .symlink)
      else translate w dirFd path (type ≠ .symlink)
    if opensDevice call (← get) then checkBindNodev w newPath path
    setSysargPath w newPath reg

/-- `translate_path2_parent`. -/
def translatePath2Parent (w : EnterWorld) (call : PathCall) (dirFd : Option ℤ) (path : CStr)
    (reg : Reg) : Enter Unit :=
  if path = [] then pure ()
  else if path.getLast? = some '/' then translatePath2 w call dirFd path reg .symlink
  else
    let (front, leaf) := splitLast path
    let parent := if '/' ∉ path then ['.'] else if front = [] then ['/'] else front
    if leaf = str "." ∨ leaf = str ".." then translatePath2 w call dirFd path reg .symlink
    else do
      let translatedParent ← translate w dirFd parent true
      let translatedPath ← Enter.status (joinPaths translatedParent leaf)
      setSysargPath w translatedPath reg

/-- `translate_sysarg`. -/
def translateSysarg (w : EnterWorld) (call : PathCall) (reg : Reg) (type : PathType) :
    Enter Unit := do
  let oldPath ← getSysargPath w reg
  translatePath2 w call none oldPath reg type

/-! ### `openat` and `openat2` -/

/-- `is_proc_self_auxv`. -/
def isProcSelfAuxv (tracee : Tracee) (path : CStr) : Bool :=
  path = str "/proc/self/auxv" || path = procPath tracee.pid ++ str "/auxv"

/-- The file of the auxiliary vector, where the path is that of the tracee's own. -/
def auxvOf (w : EnterWorld) (path : CStr) : Option CStr :=
  if isProcSelfAuxv w.tracee path then w.auxvHostPath else none

/-- The flags for which `open` and `openat` look at `readonly`. -/
def opensForWriting (flags : UInt64) : Bool :=
  flags &&& (oWronly ||| oRdwr ||| oCreat ||| oTrunc ||| oAppend) ≠ 0

/-- `is_single_rel_component`. -/
def isSingleRelComponent (path : CStr) : Bool :=
  decide (path ≠ []) && decide (¬ IsAbsolute path) && decide (path ≠ str ".") &&
    decide (path ≠ str "..") && decide ('/' ∉ path)

/-- `host_path_of_dirfd`. -/
def hostPathOfDirfd (w : EnterWorld) : Option ℤ → Except Errno CStr
  | none =>
    match getcwd2 w.tracee with
    | .error e => .error e
    | .ok guest =>
      match w.tracee.fs.bindings.substituteBinding .guest guest with
      | .error e => .error e
      | .ok (_, host) => .ok host
  | some fd => readlinkProcPidFd w.toPathWorld fd

/-- `check_openat2_beneath`. -/
def checkOpenat2Beneath (w : EnterWorld) (dirFd : Option ℤ) (hostResult : CStr) :
    Except Errno Unit :=
  match hostPathOfDirfd w dirFd with
  | .error e => .error e
  | .ok baseHost =>
    match comparePaths baseHost hostResult with
    | .pathsAreEqual | .path1IsPrefix => .ok ()
    | _ => .error .exdev

/-- `check_openat2_no_xdev`. -/
def checkOpenat2NoXdev (w : EnterWorld) (dirFd : Option ℤ) (hostResult : CStr) :
    Except Errno Unit :=
  match hostPathOfDirfd w dirFd with
  | .error e => .error e
  | .ok baseHost =>
    match w.statDev baseHost with
    | .error e => .error e
    | .ok baseDev =>
      match w.lstatDev hostResult with
      | .error e => .error e
      | .ok resultDev => if baseDev ≠ resultDev then .error .exdev else .ok ()

/-- The loop of `translate_oldroot_fd_path`, which cuts a component off in every round. -/
def translateOldrootLoop (t : Bindings) : ℕ → CStr → Except Errno CStr
  | 0, _ => .error .enoent
  | fuel + 1, guestPath =>
    let continue_ :=
      let front := (splitLast guestPath).1
      if front = [] then .error .enoent else translateOldrootLoop t fuel front
    match t.getBinding .guest guestPath with
    | none => continue_
    | some b =>
      if comparePaths b.guest guestPath = .pathsAreNotComparable then continue_
      else
        match joinPaths b.host (guestPath.drop b.guest.length) with
        | .error _ => .error .enametoolong
        | .ok hostPath => .ok hostPath

/-- `translate_oldroot_fd_path`. -/
def translateOldrootFdPath (t : Bindings) (relativePath : CStr) : Except Errno CStr :=
  match joinPaths (str "/oldroot") relativePath with
  | .error _ => .error .enametoolong
  | .ok guestPath => translateOldrootLoop t guestPath.length guestPath

/-- `lower_openat2_to_openat`. -/
def lowerOpenat2ToOpenat (w : EnterWorld) : Enter Unit := fun s =>
  match w.readOpenHow (s.args .sysarg3) (min (s.args .sysarg4) 24) with
  | .error e => (.error e, { s with openat2Resolve := 0 })
  | .ok how =>
    (.ok (),
      { s with
        openat2Resolve := how.resolve
        lowered := true
        args := Function.update (Function.update s.args .sysarg3 how.flags) .sysarg4 how.mode })

/-- What `RESOLVE_IN_ROOT` makes of an absolute path. -/
inductive InRoot
  /-- The register is set. -/
  | done
  /-- The directory and the path to go on with, and `skip_beneath`. -/
  | proceed (dirFd : Option ℤ) (path : CStr) (skipBeneath : Bool)

/-- The part of `translate_openat_enter` about `RESOLVE_IN_ROOT`. -/
def resolveBelow (w : EnterWorld) (resolve : UInt64) (dirFd : Option ℤ) (path : CStr) :
    Enter InRoot :=
  match if resolve &&& inRoot ≠ 0 ∧ IsAbsolute path then dirFd else none with
  | none => pure (.proceed dirFd path false)
  | some fd => do
    let remembered := w.recallProcFdPath fd
    let dir : Except Errno (CStr × CStr) :=
      match readlinkProcPidFd w.toPathWorld fd with
      | .error e => .error e
      | .ok dirHostPath =>
        match detranslatePath w.tracee w.getTracee dirHostPath none with
        | .error e => .error e
        | .ok (_, dirPath) => .ok (dirHostPath, dirPath)
    let dirIsOldroot := remembered.any fun path =>
      path = str "/oldroot" || path.take 9 = str "/oldroot/"
    let relativePath := if path.length = 1 then ['.'] else path.drop 1
    -- The guest path of the descriptor, and the host path of what lies below an old root.
    let dirIsNewroot := dir.toOption.any fun d => d.2 = str "/newroot"
    if dirIsNewroot then
      modify fun s => { s with args := Function.update s.args .sysarg1 (UInt64.ofInt (-100)) }
      pure (.proceed none path true)
    else
      let oldroot :=
        match dir with
        | .error _ => none
        | .ok (dirHostPath, _) =>
          if dirIsOldroot ∧ w.tracee.fs.bindings.compareRoot dirHostPath = .pathsAreEqual then
            (translateOldrootFdPath w.tracee.fs.bindings relativePath).toOption
          else none
      match oldroot with
      | some oldrootHostPath =>
        setSysargPath w oldrootHostPath .sysarg2
        pure .done
      | none =>
        setSysargPath w relativePath .sysarg2
        pure (.proceed dirFd relativePath false)

/-- Whether `translate_openat_enter` leaves a link at the end of the path alone. -/
def opensLink (flags resolve : UInt64) : Bool :=
  flags &&& oNofollow ≠ 0 || (flags &&& oExcl ≠ 0 && flags &&& oCreat ≠ 0) ||
    resolve &&& resolveNoSymlinks ≠ 0

/-- The translation of the path of an `openat`, with the restrictions set while it runs. -/
def translateRestricted (w : EnterWorld) (call : PathCall) (resolve flags : UInt64)
    (dirFd : Option ℤ) (path : CStr) : Enter Unit := fun s =>
  let s :=
    if resolve &&& (resolveNoSymlinks ||| resolveNoMagiclinks) ≠ 0 then
      { s with openat2Resolve := resolve, openat2Oflags := flags }
    else s
  let type := if opensLink flags resolve then PathType.symlink else .regular
  let (status, s) := translatePath2 w call dirFd path .sysarg2 type s
  (status, { s with openat2Resolve := 0, openat2Oflags := 0 })

/-- `translate_openat_enter` behind the check for a read-only binding. -/
def openatBehindCheck (w : EnterWorld) (call : PathCall) (resolve flags : UInt64)
    (resolveDirFd : Option ℤ) (path : CStr) : Enter Unit := do
  if resolve &&& ~~~resolveKnown ≠ 0 then throw .einval
  match ← resolveBelow w resolve resolveDirFd path with
  | .done => pure ()
  | .proceed dirFd path skipBeneath =>
    -- An absolute path starts at the root, which is not below the directory.
    if resolve &&& resolveBeneath ≠ 0 ∧ IsAbsolute path then throw .exdev
    translateRestricted w call resolve flags dirFd path
    if resolve &&& resolveBeneath ≠ 0 ∧ ¬ skipBeneath ∧
        ¬ (resolve &&& resolveNoSymlinks ≠ 0 ∧ isSingleRelComponent path) ∧
        ¬ (flags &&& oNofollow ≠ 0 ∧ isSingleRelComponent path) then
      let hostResult ← getSysargPath w .sysarg2
      Enter.status (checkOpenat2Beneath w resolveDirFd hostResult)
    if resolve &&& resolveNoXdev ≠ 0 then
      let hostResult ← getSysargPath w .sysarg2
      Enter.status (checkOpenat2NoXdev w resolveDirFd hostResult)

/-- `translate_openat_enter`, behind the lowering of an `openat2`. -/
def translateOpenat (w : EnterWorld) (call : PathCall) : Enter Unit := do
  let s ← get
  let flags := flagsOf (s.args .sysarg3)
  set
    { s with
      openat2Resolve := 0
      exitRequested := s.exitRequested || flags &&& oPath ≠ 0 }
  let path ← getSysargPath w .sysarg2
  match auxvOf w path with
  | some auxvHostPath => setSysargPath w auxvHostPath .sysarg2
  | none =>
    if opensForWriting flags then checkBindReadonly w path
    openatBehindCheck w call s.openat2Resolve flags (dirFdOf (s.args .sysarg1)) path

/-- `translate_openat_enter`. -/
def translateOpenatEnter (w : EnterWorld) (call : PathCall) (fromOpenat2 : Bool) : Enter Unit := do
  if fromOpenat2 then lowerOpenat2ToOpenat w
  translateOpenat w call

/-! ### The switch -/

/-- The type for a call whose flags may hold `AT_SYMLINK_NOFOLLOW`. -/
def typeOf (flags : UInt64) : PathType :=
  if flags &&& atSymlinkNofollow ≠ 0 then .symlink else .regular

/-- The cases of `translate_syscall_enter`. -/
def translatePathCall (w : EnterWorld) (call : PathCall) : Enter Unit :=
  match call with
  | .chmod | .chown | .chown32 | .mknod | .creat | .removexattr | .setxattr | .truncate
  | .truncate64 | .utime | .utimes => do
    let path ← getSysargPath w .sysarg1
    checkBindReadonly w path
    translateSysarg w call .sysarg1 .regular
  | .open => do
    let flags := flagsOf ((← get).args .sysarg2)
    let path ← getSysargPath w .sysarg1
    match auxvOf w path with
    | some auxvHostPath => setSysargPath w auxvHostPath .sysarg1
    | none =>
      if opensForWriting flags then checkBindReadonly w path
      translateSysarg w call .sysarg1 (if opensLink flags 0 then .symlink else .regular)
  | .fchownat | .utimensat => do
    let dirFd := dirFdOf ((← get).args .sysarg1)
    let path ← getSysargPath w .sysarg2
    checkBindReadonly w path
    let reg := if call = .fchownat then Reg.sysarg5 else .sysarg4
    let flags := flagsOf ((← get).args reg)
    translatePath2 w call dirFd path .sysarg2 (typeOf flags)
  | .fchmodat | .fchmodat2 | .futimesat | .mknodat => do
    let dirFd := dirFdOf ((← get).args .sysarg1)
    let path ← getSysargPath w .sysarg2
    checkBindReadonly w path
    let sysarg4 := flagsOf ((← get).args .sysarg4)
    let flags := if call = .fchmodat2 then sysarg4 else 0
    translatePath2 w call dirFd path .sysarg2 (typeOf flags)
  | .lchown | .lchown32 | .lremovexattr | .lsetxattr | .unlink | .rmdir => do
    let path ← getSysargPath w .sysarg1
    checkBindReadonly w path
    translateSysarg w call .sysarg1 .symlink
  | .mkdir => do
    let path ← getSysargPath w .sysarg1
    checkBindReadonly w path
    translatePath2Parent w call none path .sysarg1
  | .linkat => do
    let oldDirFd := dirFdOf ((← get).args .sysarg1)
    let newDirFd := dirFdOf ((← get).args .sysarg3)
    let flags := flagsOf ((← get).args .sysarg5)
    let oldPath ← getSysargPath w .sysarg2
    let newPath ← getSysargPath w .sysarg4
    checkBindReadonly w newPath
    translatePath2 w call oldDirFd oldPath .sysarg2
      (if flags &&& atSymlinkFollow ≠ 0 then .regular else .symlink)
    translatePath2Parent w call newDirFd newPath .sysarg4
  | .openat2 => translateOpenatEnter w call true
  | .openat => translateOpenatEnter w call false
  | .unlinkat => do
    let dirFd := dirFdOf ((← get).args .sysarg1)
    let path ← getSysargPath w .sysarg2
    checkBindReadonly w path
    translatePath2 w call dirFd path .sysarg2 .symlink
  | .mkdirat => do
    let dirFd := dirFdOf ((← get).args .sysarg1)
    let path ← getSysargPath w .sysarg2
    checkBindReadonly w path
    translatePath2Parent w call dirFd path .sysarg2
  | .link => do
    let path ← getSysargPath w .sysarg1
    checkBindReadonly w path
    let newPath ← getSysargPath w .sysarg2
    checkBindReadonly w newPath
    translateSysarg w call .sysarg1 .symlink
    translatePath2Parent w call none newPath .sysarg2
  | .rename => do
    let path ← getSysargPath w .sysarg1
    checkBindReadonly w path
    let newPath ← getSysargPath w .sysarg2
    checkBindReadonly w newPath
    translateSysarg w call .sysarg1 .symlink
    translateSysarg w call .sysarg2 .symlink
  | .renameat | .renameat2 => do
    let oldDirFd := dirFdOf ((← get).args .sysarg1)
    let newDirFd := dirFdOf ((← get).args .sysarg3)
    let oldPath ← getSysargPath w .sysarg2
    checkBindReadonly w oldPath
    let newPath ← getSysargPath w .sysarg4
    checkBindReadonly w newPath
    translatePath2 w call oldDirFd oldPath .sysarg2 .symlink
    translatePath2 w call newDirFd newPath .sysarg4 .symlink
  | .symlink => do
    let newPath ← getSysargPath w .sysarg2
    checkBindReadonly w newPath
    translatePath2Parent w call none newPath .sysarg2
  | .symlinkat => do
    let newDirFd := dirFdOf ((← get).args .sysarg2)
    let newPath ← getSysargPath w .sysarg3
    checkBindReadonly w newPath
    translatePath2Parent w call newDirFd newPath .sysarg3

/-- What is left of the entry of a call: the status, the number of the call that the kernel is
to run, `none` being `PR_void`, the state, and whether an extension has changed the host. -/
structure Entered where
  status : Except Errno Unit
  sysnum : Option PathCall
  state : EnterState
  acted : Bool

/-- `translate_syscall_enter`. -/
def translateSyscallEnter (w : EnterWorld) (call : PathCall) (s : EnterState) : Entered :=
  let (status, s) := translatePathCall w call s
  let ended := w.notifyEnterEnd call status
  ⟨match ended.error with
    | some e => .error e
    | none => status, ended.sysnum, s, ended.acts⟩

/-- The entry in `translate_syscall`: a call with an error is not run. -/
def translateSyscall (w : EnterWorld) (call : PathCall) (s : EnterState) : Entered :=
  let entered := translateSyscallEnter w call s
  match entered.status with
  | .error _ => { entered with sysnum := none }
  | .ok () => entered

end NeoProot
