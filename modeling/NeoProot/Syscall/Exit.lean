import NeoProot.Path.Dirfd
import NeoProot.Syscall.FilterLists
import Mathlib.Logic.Function.Basic

/-!
# Leaving a system call

`translate_syscall_exit` runs at the exit stop of a system call.  It notifies the
extensions, then a switch over the call either leaves by `break`, which stores
`status` as the result of the call, or by `goto end`, which keeps the result.

The switch cases of calls that the tracer's own list flags with `FILTER_SYSEXIT`,
and what an extension makes of the calls its list flags, are `ExitWorld.translated`,
`execveStart` and `exitEnd`; all other cases are written out.

## Main definitions

* `Extension` — the extensions with the state their exit handlers wait in.
* `ProcFdPaths` — the names the tracer remembers of descriptors.
* `StoppedTracee` — a tracee at an exit stop.
* `translateSyscallExit` — the translation.
-/

namespace NeoProot
open Seccomp Seccomp.Sysnum

/-! ### Registers and words -/

/-- `Reg`: the number of the call and its arguments. -/
inductive Reg
  | sysargNum | sysarg1 | sysarg2 | sysarg3 | sysarg4 | sysarg5 | sysarg6
  deriving DecidableEq, Repr

/-- `SYSARG_RESULT`: on AArch64 the register of the first argument. -/
def Reg.sysargResult : Reg := .sysarg1

/-- `RegVersion`, as far as the exit stage reads them. -/
inductive RegVersion
  | current | original | modified
  deriving DecidableEq, Repr

/-- `(int) word`. -/
def asInt (word : UInt64) : ℤ := word.toUInt32.toInt32.toInt

/-- `(word_t) status`. -/
def asWord (status : ℤ) : UInt64 := UInt64.ofInt status

def EPERM : ℤ := 1
def EINTR : ℤ := 4
def ENOMEM : ℤ := 12
def EACCES : ℤ := 13
def EFAULT : ℤ := 14
def EOPNOTSUPP : ℤ := 95

/-- A little-endian number. -/
def leNat (bytes : List UInt8) : ℕ := bytes.foldr (fun b n => b.toNat + 256 * n) 0

/-! ### Extensions -/

/-- The states of ashmem_memfd. -/
inductive AshmemState
  | idle | waitStat | waitIoctl
  deriving DecidableEq, Repr

/-- `enum SysVIpcWaitReason`. -/
inductive WaitReason
  | notWaiting | waitQueueRecv | waitSemop | waitShmatHelperBusy
  deriving DecidableEq, Repr

/-- `enum SysVIpcWaitState`. -/
inductive WaitState
  | notWaiting | restartedIntoPpollCanceled | restartedIntoPpoll | enteredPpoll | signaledPpoll
  | enteredGetpid
  deriving DecidableEq, Repr

/-- `enum SysVIpcChainState`. -/
inductive ChainState
  | notChained | single | shmatSocket | shmatConnect | shmatRecvmsg | shmatMmap | msgrcvRetry
  deriving DecidableEq, Repr

/-- `struct SysVIpcConfig`, as far as its exit handler branches on it. -/
structure SysVIpcConfig where
  waitReason : WaitReason
  waitState : WaitState
  chainState : ChainState
  statusAfterWait : ℤ
  deriving DecidableEq, Repr

/-- An extension of a tracee, with its configuration. -/
inductive Extension
  | kompat
  | fakeId0
  | hiddenFiles
  | fixSymlinkSize
  | link2symlink (dirent : Bool)
  | ashmemMemfd (state : AshmemState) (fd : ℤ)
  | sysvipc (config : SysVIpcConfig)
  | portSwitch
  | mountinfo
  | netlinkRoute
  deriving DecidableEq, Repr

namespace Extension

/-- `extension->filtered_sysnums`. -/
def filteredSysnums : Extension → List FilteredSysnum
  | kompat => kompatSysnums
  | fakeId0 => fakeId0Sysnums
  | hiddenFiles => hiddenFilesSysnums
  | fixSymlinkSize => fixSymlinkSizeSysnums
  | link2symlink dirent => if dirent then link2symlinkDirentSysnums else link2symlinkSysnums
  | ashmemMemfd _ _ => ashmemMemfdSysnums
  | sysvipc _ => sysvipcSysnums
  | portSwitch => portSwitchSysnums
  | mountinfo => []
  | netlinkRoute => netlinkRouteSysnums

/-- The calls that the `SYSCALL_EXIT_END` handler does not leave alone at once. -/
def exitEndSysnums : Extension → List Sysnum
  | kompat => [
    uname, setdomainname, sethostname, accept4, dup3, epollCreate1, eventfd2, .fcntl,
    inotifyInit1, «open», openat, pipe2, signalfd4, socket, timerfdCreate, socketpair]
  | fakeId0 => [
    setuid, setuid32, setgid, setgid32, setreuid, setreuid32, setregid, setregid32, setresuid,
    setresuid32, setresgid, setresgid32, setfsuid, setfsuid32, setfsgid, setfsgid32, getuid,
    getuid32, getgid, getgid32, geteuid, geteuid32, getegid, getegid32, getresuid, getresuid32,
    getresgid, getresgid32, setdomainname, sethostname, setgroups, setgroups32, mknod, mknodat,
    capset, chmod, chown, fchmod, fchown, lchown, chown32, fchown32, lchown32, fchmodat,
    fchownat, setxattr, lsetxattr, fsetxattr, socket, .fstatat64, .newfstatat, stat64, lstat64,
    .fstat64, stat, lstat, .fstat, chroot, getsockopt]
  | hiddenFiles => [getdents, getdents64]
  | fixSymlinkSize => [lstat64, lstat]
  | link2symlink dirent => (if dirent then [getdents64] else []) ++ [
    creat, «open», openat, openat2, stat, lstat, stat64, lstat64, .fstatat64, .newfstatat,
    .fstat, .fstat64]
  | ashmemMemfd _ _ | sysvipc _ | portSwitch | mountinfo => []
  | netlinkRoute => [socket, socketcall, bind, sendto]

end Extension

/-- The lists that `enable_syscall_filtering` merges. -/
def filterLists (android hostBlocksAfNetlink : Bool) (extensions : List Extension) :
    List (List FilteredSysnum) :=
  (prootSysnums ++ if android then androidSysnums else []) ::
    (if hostBlocksAfNetlink then [netlinkSysnums] else []) ++
    extensions.map Extension.filteredSysnums

/-! ### The names of descriptors -/

/-- One entry of `proc_fd_path_cache`. -/
structure ProcFdPath where
  pid : ℕ
  fd : ℤ
  path : CStr
  hostPath : CStr
  binding : Option Binding
  hasAttributes : Bool
  readonly : Bool
  mountFlags : UInt64
  deriving DecidableEq, Repr

/-- `PROC_FD_PATH_CACHE_SIZE`. -/
def procFdPathCacheSize : ℕ := 128

/-- `proc_fd_path_cache` and `proc_fd_path_cache_next`. -/
structure ProcFdPaths where
  slots : List ProcFdPath
  next : ℕ
  deriving DecidableEq, Repr

namespace ProcFdPaths

/-- `recall_proc_fd_path`. -/
def recallPath (c : ProcFdPaths) (pid : ℕ) (fd : ℤ) : Option CStr :=
  (c.slots.find? fun s => s.pid = pid ∧ s.fd = fd ∧ s.path ≠ []).map (·.path)

/-- `remember_proc_fd_path`. -/
def remember (c : ProcFdPaths) (new : ProcFdPath) : ProcFdPaths :=
  if new.fd < 0 ∨ ¬ IsAbsolute new.path then c
  else
    let new := { new with
      path := new.path.take (pathMax - 1)
      hostPath := new.hostPath.take (pathMax - 1) }
    match c.slots.findIdx? fun s => s.pid = new.pid ∧ s.fd = new.fd with
    | some slot => { c with slots := c.slots.set slot new }
    | none => ⟨c.slots.set c.next new, (c.next + 1) % procFdPathCacheSize⟩

/-- `forget_proc_fd_path`, up to the descriptor cache. -/
def forget (c : ProcFdPaths) (pid : ℕ) (fd : ℤ) : ProcFdPaths :=
  { c with
    slots := c.slots.map fun s =>
      if s.pid = pid ∧ s.fd = fd then
        { s with pid := 0, fd := -1, path := [], binding := none, hasAttributes := false }
      else s }

end ProcFdPaths

/-! ### Tracees -/

/-- A call that waits in `tracee->chain`. -/
structure ChainedSyscall where
  sysnum : Sysnum
  sysargs : List UInt64
  deriving DecidableEq, Repr

/-- A tracee at an exit stop, with what the tracer keeps about it.  `M` is what the
guest memory holds. -/
structure StoppedTracee (M : Type) extends Tracee where
  regs : RegVersion → Reg → UInt64
  memory : M
  status : ℤ
  extensions : List Extension
  chain : List ChainedSyscall
  execfnAddr : UInt64
  pendingFakeNetlinkSocket : Bool
  pendingRealNetlinkSocket : Bool
  fakeNetlinkFds : List ℤ
  netlinkRouteFds : List ℤ
  netlinkAckPending : Bool
  netlinkAckFd : ℤ
  netlinkAckSeq : ℕ
  procFdPaths : ProcFdPaths
  dirfds : DirfdCache

namespace StoppedTracee

variable {M : Type}

/-- `peek_reg`. -/
def peekReg (t : StoppedTracee M) (version : RegVersion) (reg : Reg) : UInt64 :=
  t.regs version reg

/-- `peek_reg(tracee, CURRENT, SYSARG_RESULT)`. -/
def result (t : StoppedTracee M) : UInt64 := t.peekReg .current .sysargResult

/-- `poke_reg(tracee, SYSARG_RESULT, value)`. -/
def pokeResult (t : StoppedTracee M) (value : UInt64) : StoppedTracee M :=
  { t with
    regs := Function.update t.regs .current
      (Function.update (t.regs .current) .sysargResult value) }

/-- `get_sysnum(tracee, ORIGINAL)`, with `none` for `PR_void`. -/
def sysnum (sysnums : Sysnums) (t : StoppedTracee M) : Option Sysnum :=
  (sysnums[(t.peekReg .original .sysargNum).toNat]?).join

/-- `SYSCALL_AVOIDER`. -/
def syscallAvoider : UInt64 := asWord (-1)

/-- The call was made void on the way in. -/
def Voided (t : StoppedTracee M) : Prop :=
  t.peekReg .modified .sysargNum = syscallAvoider ∧
    t.peekReg .original .sysargNum ≠ t.peekReg .modified .sysargNum

instance (t : StoppedTracee M) : Decidable t.Voided :=
  inferInstanceAs (Decidable (_ ∧ _))

/-- A void call takes the result that its entry stored. -/
def takeVoidedResult (t : StoppedTracee M) : StoppedTracee M :=
  if t.Voided then t.pokeResult (t.peekReg .modified .sysargResult) else t

/-- `copy_proc_fd_path`. -/
def copyProcFdPath (t : StoppedTracee M) (sourceFd targetFd : ℤ) : StoppedTracee M :=
  match t.procFdPaths.recallPath t.pid sourceFd with
  | none =>
    { t with
      procFdPaths := t.procFdPaths.forget t.pid targetFd
      dirfds := (t.dirfds.forget t.pid targetFd).copy t.pid sourceFd targetFd }
  | some path =>
    { t with
      procFdPaths :=
        match t.procFdPaths.slots.find? fun s => s.pid = t.pid ∧ s.fd = sourceFd with
        | none => t.procFdPaths
        | some s => t.procFdPaths.remember { s with fd := targetFd, path := path }
      dirfds := t.dirfds.copy t.pid sourceFd targetFd }

end StoppedTracee

/-- How a stage of `sysvipc_shmat_chain` goes on. -/
inductive ShmatStage
  | next
  | failCloseSocket
  | failDontClose
  deriving DecidableEq, Repr

/-- What the exit stage asks of the kernel, and the parts of it that are left out. -/
structure ExitWorld (M : Type) where
  /-- The system calls by their numbers. -/
  sysnums : Sysnums
  readData : M → UInt64 → ℕ → Option (List UInt8)
  peekWord : M → UInt64 → Option UInt64
  pokeWord : M → UInt64 → UInt64 → M
  pokeUint32 : M → UInt64 → UInt32 → M
  readPath : M → UInt64 → Except Errno CStr
  readlinkProcPidFd : ℕ → ℤ → Except Errno CStr
  /-- One case of `sysvipc_shmat_chain`: what it makes of the memory and the chain. -/
  shmatStage : SysVIpcConfig → StoppedTracee M → ShmatStage × M × List ChainedSyscall
  /-- `sysvipc_msgrcv_retry`. -/
  msgrcvRetry : SysVIpcConfig → StoppedTracee M → M × ℤ
  /-- What the `SYSCALL_EXIT_START` handlers make of a successful `execve`. -/
  execveStart : Extension → StoppedTracee M → Extension × StoppedTracee M
  /-- What a `SYSCALL_EXIT_END` handler makes of the calls it handles. -/
  exitEnd : Extension → StoppedTracee M → Extension × StoppedTracee M × ℤ
  /-- The cases of `ExitCase.translated`; `some status` leaves by `break`. -/
  translated : Sysnum → StoppedTracee M → StoppedTracee M × Option ℤ

section

variable {M : Type}

/-! ### The notifications -/

/-- `sysvipc_shmat_chain`. -/
def sysvipcShmatChain (w : ExitWorld M) (c : SysVIpcConfig) (t : StoppedTracee M) :
    Extension × StoppedTracee M × ℤ :=
  match w.shmatStage c t with
  | (.next, memory, chain) =>
    let next : ChainState :=
      match c.chainState with
      | .shmatSocket => .shmatConnect
      | .shmatConnect => .shmatRecvmsg
      | .shmatRecvmsg => .shmatMmap
      | _ => .notChained
    (.sysvipc { c with chainState := next }, { t with memory := memory, chain := chain }, 1)
  | (.failCloseSocket, memory, chain) =>
    (.sysvipc { c with chainState := .notChained },
      { t with memory := memory, chain := chain }, 1)
  | (.failDontClose, memory, chain) =>
    (.sysvipc { c with chainState := .notChained },
      { t with memory := memory, chain := chain }, -ENOMEM)

/-- The `SYSCALL_EXIT_START` case of `sysvipc_callback`. -/
def sysvipcExitStart (w : ExitWorld M) (c : SysVIpcConfig) (t : StoppedTracee M) :
    Extension × StoppedTracee M × ℤ :=
  if c.chainState = .shmatSocket ∨ c.chainState = .shmatConnect ∨
      c.chainState = .shmatRecvmsg ∨ c.chainState = .shmatMmap then
    sysvipcShmatChain w c t
  else
    match c.waitState with
    | .enteredPpoll =>
      let status := asInt t.result
      (.sysvipc { c with waitState := .notWaiting, waitReason := .notWaiting }, t,
        if status = -EFAULT ∨ status = -EINTR then 1 else -EINTR)
    | .signaledPpoll | .enteredGetpid =>
      let (memory, result) :=
        if c.chainState = .msgrcvRetry then w.msgrcvRetry c t else (t.memory, c.statusAfterWait)
      (.sysvipc { c with waitState := .notWaiting },
        { t with memory := memory }.pokeResult (asWord result), 1)
    | .notWaiting | .restartedIntoPpoll | .restartedIntoPpollCanceled => (.sysvipc c, t, 0)

/-- `ASHMEM_GET_SIZE`. -/
def ashmemGetSize : UInt64 := 0x7704

/-- The handlers of `SYSCALL_EXIT_START`. -/
def exitStart (w : ExitWorld M) (e : Extension) (t : StoppedTracee M) :
    Extension × StoppedTracee M × ℤ :=
  match e with
  | .kompat =>
    if 0 ≤ asInt t.result ∧ t.sysnum w.sysnums = some execve then
      let (e, t) := w.execveStart e t
      (e, t, 0)
    else (e, t, 0)
  | .fakeId0 =>
    if asInt t.result < 0 ∨ t.status < 0 ∨ t.sysnum w.sysnums ≠ some execve then (e, t, 0)
    else
      let (e, t) := w.execveStart e t
      (e, t, 0)
  | .ashmemMemfd .waitStat fd =>
    if t.result ≠ 0 then (.ashmemMemfd .idle fd, t, 0)
    else
      (.ashmemMemfd .waitIoctl fd,
        { t with chain := t.chain ++ [⟨.ioctl, [asWord fd, ashmemGetSize, 0, 0, 0, 0]⟩] }, 0)
  | .sysvipc c => sysvipcExitStart w c t
  | _ => (e, t, 0)

/-- The handlers of `SYSCALL_EXIT_END`. -/
def exitEnd (w : ExitWorld M) (e : Extension) (t : StoppedTracee M) :
    Extension × StoppedTracee M × ℤ :=
  match t.sysnum w.sysnums with
  | some s => if s ∈ e.exitEndSysnums then w.exitEnd e t else (e, t, 0)
  | none => (e, t, 0)

/-- The loop of `notify_extensions`: the first handler that does not return 0 ends it. -/
def notifyEach (handler : Extension → StoppedTracee M → Extension × StoppedTracee M × ℤ) :
    List Extension → StoppedTracee M → List Extension × StoppedTracee M × ℤ
  | [], t => ([], t, 0)
  | e :: es, t =>
    match handler e t with
    | (e, t, status) =>
      if status ≠ 0 then (e :: es, t, status)
      else
        match notifyEach handler es t with
        | (es, t, status) => (e :: es, t, status)

/-- `notify_extensions`. -/
def notifyExtensions (handler : Extension → StoppedTracee M → Extension × StoppedTracee M × ℤ)
    (t : StoppedTracee M) : StoppedTracee M × ℤ :=
  match notifyEach handler t.extensions t with
  | (es, t, status) => ({ t with extensions := es }, status)

/-! ### The cases of the switch -/

/-- The groups of labels of the switch. -/
inductive ExitCase
  | translated | answered | dup | fcntl | opened | prctl | ioctl | socket | received | other
  deriving DecidableEq, Repr

/-- The labels of the cases that are `ExitWorld.translated`. -/
def translatedSysnums : List Sysnum := [
  brk, getcwd, accept, accept4, getsockname, getpeername, socketcall, rename, renameat,
  readlink, readlinkat, execve, execveat, ptrace, wait4, waitpid, setrlimit, prlimit64, utime,
  statfs, statfs64, .statx]

/-- The switch of `translate_syscall_exit`. -/
def exitCase (s : Sysnum) : ExitCase :=
  if s ∈ translatedSysnums then .translated
  else if s ∈ [fchdir, chdir, unshare, setns, mount, mountSetattr, umount, umount2, pivotRoot]
    then .answered
  else if s ∈ [dup, dup2, dup3] then .dup
  else if s ∈ [.fcntl, .fcntl64] then .fcntl
  else if s ∈ [creat, «open», openat, openat2] then .opened
  else if s = prctl then .prctl
  else if s = .ioctl then .ioctl
  else if s = socket then .socket
  else if s ∈ [recvfrom, recvmsg] then .received
  else .other

/-- `F_DUPFD` and `F_DUPFD_CLOEXEC`. -/
def fDupfd : ℤ := 0
def fDupfdCloexec : ℤ := 1030

/-- The case of the `dup` calls. -/
def dupExit (t : StoppedTracee M) : StoppedTracee M :=
  if 0 ≤ asInt t.result then
    t.copyProcFdPath (asInt (t.peekReg .original .sysarg1)) (asInt t.result)
  else t

/-- The case of `fcntl`. -/
def fcntlExit (t : StoppedTracee M) : StoppedTracee M :=
  let command := asInt (t.peekReg .original .sysarg2)
  if 0 ≤ asInt t.result ∧ (command = fDupfd ∨ command = fDupfdCloexec) then
    t.copyProcFdPath (asInt (t.peekReg .original .sysarg1)) (asInt t.result)
  else t

/-- `RESOLVE_IN_ROOT`. -/
def resolveInRoot : ℕ := 0x10

/-- The name a descriptor was opened by: the guest's own spelling where that is
absolute, or made so by the name of the directory, else the translated path. -/
def openedPath (w : ExitWorld M) (s : Sysnum) (t : StoppedTracee M) : Option CStr :=
  let pathReg : Reg := if s = creat ∨ s = «open» then .sysarg1 else .sysarg2
  let directory := t.procFdPaths.recallPath t.pid (asInt (t.peekReg .original .sysarg1))
  let spelled := (w.readPath t.memory (t.peekReg .original pathReg)).toOption.map fun path =>
    if IsAbsolute path ∨ ¬ (s = openat ∨ s = openat2) then path
    else
      match directory with
      | none => path
      | some directory => ((joinPaths directory path).toOption).getD path
  let path :=
    match spelled with
    | some path =>
      if IsAbsolute path then some path
      else (w.readPath t.memory (t.peekReg .modified pathReg)).toOption
    | none => (w.readPath t.memory (t.peekReg .modified pathReg)).toOption
  path.map fun path =>
    if s = openat2 ∧ IsAbsolute path then
      match directory with
      | none => path
      | some directory =>
        if (directory = str "/oldroot" ∨ str "/oldroot/" <+: directory) ∧
            24 ≤ (t.peekReg .original .sysarg4).toNat ∧
            ∃ how, w.readData t.memory (t.peekReg .original .sysarg3) 24 = some how ∧
              leNat (how.drop 16) &&& resolveInRoot ≠ 0 then
          ((joinPaths directory path).toOption).getD path
        else path
    else path

/-- What is remembered of a descriptor that was opened by a path. -/
def openedEntry (w : ExitWorld M) (t : StoppedTracee M) (fd : ℤ) (path : CStr) : ProcFdPath :=
  let binding := t.fs.bindings.getBinding .guest path
  { pid := t.pid
    fd := fd
    path := path
    hostPath := ((w.readlinkProcPidFd t.pid fd).toOption).getD []
    binding := binding
    hasAttributes := binding.isSome
    readonly := binding.any (·.readonly)
    mountFlags := (binding.map (·.mountFlags)).getD 0 }

/-- The case of the open calls. -/
def openExit (w : ExitWorld M) (s : Sysnum) (t : StoppedTracee M) : StoppedTracee M :=
  if asInt t.result < 0 then t
  else
    match openedPath w s t with
    | none => t
    | some path =>
      if IsAbsolute path then
        { t with procFdPaths := t.procFdPaths.remember (openedEntry w t (asInt t.result) path) }
      else t

/-- `PR_GET_AUXV`, `AT_NULL`, `AT_EXECFN`. -/
def prGetAuxv : UInt64 := 0x41555856
def atNull : UInt64 := 0
def atExecfn : UInt64 := 31

/-- The value of the `AT_EXECFN` entry of a vector: its address. -/
def auxvExecfn (w : ExitWorld M) (m : M) (buffer : UInt64) : ℕ → UInt64 → Option UInt64
  | 0, _ => none
  | n + 1, offset =>
    match w.peekWord m (buffer + offset) with
    | none => none
    | some type =>
      if type = atNull then none
      else if type = atExecfn then some (buffer + offset + 8)
      else auxvExecfn w m buffer n (offset + 16)

/-- The entry that `PR_GET_AUXV` has to replace. -/
def auxvEntry (w : ExitWorld M) (t : StoppedTracee M) : Option UInt64 :=
  if asInt t.result < 0 ∨ t.execfnAddr = 0 ∨ t.peekReg .original .sysarg3 < t.result then none
  else auxvExecfn w t.memory (t.peekReg .original .sysarg2) (t.result.toNat / 16) 0

/-- The case of `PR_GET_AUXV`. -/
def getAuxvExit (w : ExitWorld M) (t : StoppedTracee M) : StoppedTracee M :=
  match auxvEntry w t with
  | none => t
  | some address => { t with memory := w.pokeWord t.memory address t.execfnAddr }

/-- `_IOW(0x94, 9, int)`. -/
def ficlone : UInt64 := 0x40049409

/-- Put a descriptor into one of the lists of netlink sockets, whose size is bounded. -/
def addFd (bound : ℕ) (fds : List ℤ) (fd : ℤ) : List ℤ :=
  if fd < 0 ∨ bound ≤ fds.length ∨ fd ∈ fds then fds else fds ++ [fd]

/-- `MAX_FAKE_NETLINK_FDS` and `MAX_NETLINK_ROUTE_FDS`. -/
def maxFakeNetlinkFds : ℕ := 8
def maxNetlinkRouteFds : ℕ := 8

/-- The case of `socket`. -/
def socketExit (t : StoppedTracee M) : StoppedTracee M :=
  let fd := asInt t.result
  let t :=
    if t.pendingFakeNetlinkSocket then
      { t with
        fakeNetlinkFds := addFd maxFakeNetlinkFds t.fakeNetlinkFds fd
        pendingFakeNetlinkSocket := false }
    else t
  if t.pendingRealNetlinkSocket then
    { t with
      netlinkRouteFds := addFd maxNetlinkRouteFds t.netlinkRouteFds fd
      pendingRealNetlinkSocket := false }
  else t

/-- `NLMSG_HDRLEN`, `NLMSG_ERROR` and `MSG_PEEK`. -/
def nlmsgHdrlen : ℕ := 16
def nlmsgError : ℕ := 2
def msgPeek : UInt64 := 2

/-- What a failed `peek_word` returns. -/
def peekFailed : UInt64 := asWord (-1)

/-- `msghdr_first_iovec`: the address and the length.  A failed `peek_word` stops the
next one only. -/
def msghdrFirstIovec (w : ExitWorld M) (m : M) (msghdr : UInt64) : Option (UInt64 × UInt64) :=
  if msghdr = 0 then none
  else
    match w.peekWord m (msghdr + 16) with
    | none => none
    | some iov =>
      if iov = 0 ∨ (w.peekWord m (msghdr + 24)).getD peekFailed = 0 then none
      else
        match w.peekWord m iov with
        | some base => some (base, (w.peekWord m (iov + 8)).getD peekFailed)
        | none => some (peekFailed, 0)

/-- The reply that `handle_netlink_reply_exit` looks through: its address, its bytes
and the flags of the call. -/
def netlinkReply (w : ExitWorld M) (s : Sysnum) (t : StoppedTracee M) :
    Option (UInt64 × List UInt8 × UInt64) :=
  if ¬ t.netlinkAckPending ∨ asInt (t.peekReg .original .sysarg1) ≠ t.netlinkAckFd ∨
      asInt t.result ≤ 0 then none
  else
    let buffer :=
      if s = recvfrom then
        some (t.peekReg .original .sysarg2, t.peekReg .original .sysarg3,
          t.peekReg .original .sysarg4)
      else
        (msghdrFirstIovec w t.memory (t.peekReg .original .sysarg2)).map fun (base, len) =>
          (base, len, t.peekReg .original .sysarg3)
    match buffer with
    | none => none
    | some (base, len, flags) =>
      let len := min (min (asInt t.result).toNat len.toNat) 512
      if base = 0 ∨ len < nlmsgHdrlen + 4 then none
      else (w.readData t.memory base len).map fun reply => (base, reply, flags)

/-- The number of some bytes of a reply. -/
def fieldAt (reply : List UInt8) (off size : ℕ) : ℕ := leNat ((reply.drop off).take size)

/-- The loop over the messages of a reply: where the error is that denies the request. -/
def netlinkDenial (reply : List UInt8) (seq : ℕ) : ℕ → ℕ → Option ℕ
  | 0, _ => none
  | fuel + 1, off =>
    if reply.length < off + nlmsgHdrlen + 4 then none
    else
      let len := fieldAt reply off 4
      if len < nlmsgHdrlen then none
      else if fieldAt reply (off + 4) 2 = nlmsgError ∧ fieldAt reply (off + 8) 4 = seq then
        let error := asInt (UInt64.ofNat (fieldAt reply (off + nlmsgHdrlen) 4))
        if error ≠ -EPERM ∧ error ≠ -EACCES then none else some (off + nlmsgHdrlen)
      else netlinkDenial reply seq fuel (off + (len + 3) / 4 * 4)

/-- `handle_netlink_reply_exit`. -/
def handleNetlinkReplyExit (w : ExitWorld M) (s : Sysnum) (t : StoppedTracee M) :
    StoppedTracee M :=
  match netlinkReply w s t with
  | none => t
  | some (base, reply, flags) =>
    let memory :=
      match netlinkDenial reply t.netlinkAckSeq reply.length 0 with
      | none => t.memory
      | some off => w.pokeUint32 t.memory (base + UInt64.ofNat off) 0
    { t with
      memory := memory
      netlinkAckPending := flags &&& msgPeek ≠ 0 && t.netlinkAckPending }

/-- The body of the switch.  `some status` leaves by `break`, `none` by `goto end`.
Where a case leaves by `break` without a `status` of its own, that of the first
notification is still there, which is 0. -/
def exitSwitch (w : ExitWorld M) (s : Sysnum) (t : StoppedTracee M) :
    StoppedTracee M × Option ℤ :=
  match exitCase s with
  | .translated => w.translated s t
  | .answered => (t, some 0)
  | .dup => (dupExit t, none)
  | .fcntl => (fcntlExit t, none)
  | .opened => (openExit w s t, none)
  | .prctl =>
    if t.peekReg .original .sysarg1 = prGetAuxv then (getAuxvExit w t, none) else (t, some 0)
  | .ioctl =>
    (if t.peekReg .original .sysarg2 = ficlone ∧ asInt t.result = -EACCES then
      t.pokeResult (asWord (-EOPNOTSUPP))
    else t, none)
  | .socket => (socketExit t, none)
  | .received => (handleNetlinkReplyExit w s t, none)
  | .other => (t, none)

/-! ### The translation -/

/-- The label `end`. -/
def exitLabelEnd (w : ExitWorld M) (t : StoppedTracee M) : StoppedTracee M :=
  match notifyExtensions (exitEnd w) t with
  | (t, status) => if status < 0 then t.pokeResult (asWord status) else t

/-- From the test of `tracee->status` on. -/
def translateExit (w : ExitWorld M) (t : StoppedTracee M) : StoppedTracee M :=
  if t.status < 0 then exitLabelEnd w (t.pokeResult (asWord t.status))
  else
    match t.sysnum w.sysnums with
    | none => exitLabelEnd w t.takeVoidedResult
    | some s =>
      match exitSwitch w s t.takeVoidedResult with
      | (t, some status) => exitLabelEnd w (t.pokeResult (asWord status))
      | (t, none) => exitLabelEnd w t

/-- `translate_syscall_exit`. -/
def translateSyscallExit (w : ExitWorld M) (t : StoppedTracee M) : StoppedTracee M :=
  match notifyExtensions (exitStart w) t with
  | (t, status) =>
    if status < 0 then exitLabelEnd w (t.pokeResult (asWord status))
    else if 0 < status then t
    else translateExit w t

end

end NeoProot
