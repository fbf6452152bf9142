import NeoProot.Basic
import NeoProot.Lib.Bpf
import Mathlib.Data.List.Basic
import Mathlib.Data.Fintype.Sum
import Mathlib.Tactic.DeriveFintype

/-!
# The seccomp filter

Which system calls of a tracee stop in the tracer is decided by a BPF program that
`set_seccomp_filters` puts together from a list of system calls.  The list is
merged from those of the tracer and of its extensions.

## Main definitions

* `Sysnum`, `Sysnums` — the system calls, and their numbers.
* `mergeFilteredSysnums` — the merge of two lists.
* `setSeccompFilters` — the program.
-/

namespace NeoProot.Seccomp
open Bpf

/-- The number of the other calls. -/
instance neZero_others : @NeZero ℕ Zero.ofOfNat0 444 := ⟨by decide⟩

/-- `Sysnum` without `PR_void`.  The filter tells eight of the calls of
`sysnums.list` from the others, which are numbered in the order of that list. -/
inductive Sysnum
  | ioctl
  | fcntl
  | fcntl64
  | newfstatat
  | fstatat64
  | statx
  | fstat
  | fstat64
  | other (index : Fin 444)
  deriving DecidableEq, Repr, Fintype

/-- The table of an ABI.  `none` is `PR_void`. -/
abbrev Sysnums := List (Option Sysnum)

/-- `detranslate_sysnum`, with `none` for `SYSCALL_AVOIDER`. -/
def detranslateSysnum (table : Sysnums) (sysnum : Sysnum) : Option ℕ :=
  table.findIdx? (· = some sysnum)

/-- `FilteredSysnum`. -/
structure FilteredSysnum where
  value : Sysnum
  flags : UInt64
  deriving DecidableEq, Repr

/-- One round of `merge_filtered_sysnums`. -/
def mergeFilteredSysnum (list : List FilteredSysnum) (new : FilteredSysnum) :
    List FilteredSysnum :=
  match list with
  | [] => [new]
  | s :: list =>
    if s.value = new.value then { s with flags := s.flags ||| new.flags } :: list
    else s :: mergeFilteredSysnum list new

/-- `merge_filtered_sysnums`. -/
def mergeFilteredSysnums (list newList : List FilteredSysnum) : List FilteredSysnum :=
  newList.foldl mergeFilteredSysnum list

/-- The merges of `enable_syscall_filtering`: the lists of the tracer, then those of
its extensions. -/
def filteredSysnums (lists : List (List FilteredSysnum)) : List FilteredSysnum :=
  lists.foldl mergeFilteredSysnums []

/-! ### The words a filter looks at -/

/-- `struct seccomp_data`. -/
structure SeccompData where
  nr : UInt32
  arch : UInt32
  instructionPointer : UInt64
  args : Fin 6 → UInt64

/-- `offsetof(struct seccomp_data, nr)`. -/
def nrOff : UInt32 := 0

/-- `offsetof(struct seccomp_data, arch)`. -/
def archOff : UInt32 := 4

/-- `offsetof(struct seccomp_data, args[i])`. -/
def argOff (i : ℕ) : UInt32 := UInt32.ofNat (16 + 8 * i)

/-- The low and the high word of a register. -/
def lowWord (x : UInt64) : UInt32 := x.toUInt32

def highWord (x : UInt64) : UInt32 := (x >>> 32).toUInt32

namespace SeccompData

/-- The little-endian word at an offset. -/
def word (d : SeccompData) (off : UInt32) : UInt32 :=
  match off.toNat with
  | 0 => d.nr
  | 4 => d.arch
  | 8 => lowWord d.instructionPointer
  | 12 => highWord d.instructionPointer
  | 16 => lowWord (d.args 0)
  | 20 => highWord (d.args 0)
  | 24 => lowWord (d.args 1)
  | 28 => highWord (d.args 1)
  | 32 => lowWord (d.args 2)
  | 36 => highWord (d.args 2)
  | 40 => lowWord (d.args 3)
  | 44 => highWord (d.args 3)
  | 48 => lowWord (d.args 4)
  | 52 => highWord (d.args 4)
  | 56 => lowWord (d.args 5)
  | 60 => highWord (d.args 5)
  | _ => 0

end SeccompData

def seccompRetKill : UInt32 := 0x00000000
def seccompRetUserNotif : UInt32 := 0x7fc00000
def seccompRetTrace : UInt32 := 0x7ff00000
def seccompRetAllow : UInt32 := 0x7fff0000

/-- `NEOPROOT_STAT_SHIM_RAW_TAG`. -/
def statShimRawTag : UInt32 := 0x4e50524f

/-- `AUDIT_ARCH_AARCH64`. -/
def auditArchAarch64 : UInt32 := 0xc00000b7

/-- The `value`s of `SECCOMP_ARCHS`.  Its one architecture has the default ABI. -/
def seccompArchs : List UInt32 := [auditArchAarch64]

/-! ### The pieces of a program -/

/-- `struct sock_fprog`; `len` is an `unsigned short`. -/
structure SockFprog where
  filter : List Insn
  len : ℕ
  deriving DecidableEq, Repr

namespace SockFprog

/-- `new_program_filter`. -/
def new : SockFprog := ⟨[], 0⟩

/-- `add_statements`. -/
def addStatements (program : SockFprog) (statements : List Insn) : SockFprog :=
  { program with filter := program.filter ++ statements }

/-- `program->len = talloc_array_length(program->filter)`. -/
def setLen (program : SockFprog) : SockFprog :=
  { program with len := program.filter.length % 2 ^ 16 }

/-- `add_syscall_ret`. -/
def addSyscallRet (program : SockFprog) (syscall : ℕ) (seccompRet : UInt32) :
    Except Errno SockFprog :=
  if 2 ^ 32 ≤ syscall then .error .erange
  else
    .ok (program.addStatements [
      .jeq nrOff (UInt32.ofNat syscall) 0 1,
      .ret seccompRet])

/-- `add_trace_syscall`.  The flags are passed as an `int`. -/
def addTraceSyscall (program : SockFprog) (syscall : ℕ) (flags : UInt64) :
    Except Errno SockFprog :=
  program.addSyscallRet syscall (seccompRetTrace + flags.toUInt32)

/-- `add_trace_syscall_args1`. -/
def addTraceSyscallArgs1 (program : SockFprog) (syscall : ℕ) (flags : UInt64)
    (args1 : List UInt32) : Except Errno SockFprog :=
  if 2 ^ 32 ≤ syscall then .error .erange
  else
    let skip := 1 + 2 * args1.length
    .ok (program.addStatements (
      .jeq nrOff (UInt32.ofNat syscall) 0 (UInt8.ofNat skip) ::
      .ld (argOff 1) ::
      args1.flatMap fun arg => [
        .jeq (argOff 1) arg 0 1,
        .ret (seccompRetTrace + flags.toUInt32)]))

/-- `add_notif_syscall_flag`. -/
def addNotifSyscallFlag (program : SockFprog) (syscall argIndex : ℕ) (tag : UInt32) :
    Except Errno SockFprog :=
  if 2 ^ 32 ≤ syscall ∨ 5 < argIndex then .error .erange
  else
    .ok (program.addStatements [
      .ld nrOff,
      .jeq nrOff (UInt32.ofNat syscall) 0 4,
      .ld (argOff argIndex + 4),
      .jeq (argOff argIndex + 4) tag 0 1,
      .ret seccompRetAllow,
      .ret seccompRetUserNotif])

/-- `start_arch_section`. -/
def startArchSection (program : SockFprog) (arch : UInt32) (nbTraced extraStmts : ℕ) :
    Except Errno SockFprog :=
  let secLen := 1 + nbTraced * 2 + extraStmts
  if 2 ^ 32 - 2 < secLen then .error .erange
  else
    .ok (program.addStatements [
      .ld archOff,
      .jeq archOff arch 1 0,
      .ja (UInt32.ofNat (secLen + 1)),
      .ld nrOff]).setLen

/-- `end_arch_section`. -/
def endArchSection (program : SockFprog) (nbTraced extraStmts : ℕ) : Except Errno SockFprog :=
  let program := program.addStatements [.ret seccompRetAllow]
  let expected := 1 + nbTraced * 2 + extraStmts
  if (program.filter.length : ℤ) - program.len ≠ expected then .error .erange
  else .ok program

/-- `finalize_program_filter`. -/
def finalizeProgramFilter (program : SockFprog) : SockFprog :=
  (program.addStatements [.ret seccompRetKill]).setLen

end SockFprog

/-! ### The program -/

/-- `is_user_notif_sysnum`. -/
def isUserNotifSysnum (value : Sysnum) : Bool :=
  value = .newfstatat || value = .fstatat64 || value = .statx

/-- `is_stat_shim_sysnum`. -/
def isStatShimSysnum (value : Sysnum) (link2symlink : Bool) : Bool :=
  if value = .newfstatat ∨ value = .fstatat64 ∨ value = .statx then true
  else !link2symlink && (value = .fstat || value = .fstat64)

/-- `fcntl_traced_cmds`: `F_DUPFD` and `F_DUPFD_CLOEXEC`. -/
def fcntlTracedCmds : List UInt32 := [0, 1030]

/-- `ioctl_cmds`. -/
def ioctlCmds : List UInt32 :=
  [0x5404, 0x802c542a, 0x402c542b, 0x402c542c, 0x402c542d, 0x40049409, 0x00008933]

/-- `IOCTL_ARGS1_STMTS`. -/
def ioctlArgs1Stmts : ℕ := 16

/-- `FCNTL_ARGS1_STMTS`. -/
def fcntlArgs1Stmts : ℕ := 2 + 2 * fcntlTracedCmds.length

/-- What the filter is made for, beside the list of system calls. -/
structure FilterConfig where
  table : Sysnums
  userNotif : Bool
  statShim : Bool
  link2symlink : Bool

/-- `n_trace`, `ioctl_extra` and `stat_extra`. -/
structure Counts where
  nTrace : ℕ
  ioctlExtra : ℕ
  statExtra : ℕ

/-- One round of the loop that counts. -/
def countSysnum (cfg : FilterConfig) (counts : Counts) (s : FilteredSysnum) : Counts :=
  match detranslateSysnum cfg.table s.value with
  | none => counts
  | some _ =>
    if cfg.statShim ∧ isStatShimSysnum s.value cfg.link2symlink then
      if cfg.userNotif ∧ (s.value = .newfstatat ∨ s.value = .fstatat64 ∨ s.value = .statx) then
        { counts with nTrace := counts.nTrace + 1, statExtra := counts.statExtra + (6 - 2) }
      else counts
    else
      let counts := { counts with nTrace := counts.nTrace + 1 }
      if s.value = .ioctl then
        { counts with ioctlExtra := counts.ioctlExtra + (ioctlArgs1Stmts - 2) }
      else if s.value = .fcntl ∨ s.value = .fcntl64 then
        { counts with ioctlExtra := counts.ioctlExtra + (fcntlArgs1Stmts - 2) }
      else counts

/-- One round of the loop that adds the statements. -/
def addSysnum (cfg : FilterConfig) (program : SockFprog) (s : FilteredSysnum) :
    Except Errno SockFprog :=
  match detranslateSysnum cfg.table s.value with
  | none => .ok program
  | some sc =>
    if cfg.statShim ∧ isStatShimSysnum s.value cfg.link2symlink then
      if cfg.userNotif ∧ (s.value = .newfstatat ∨ s.value = .fstatat64 ∨ s.value = .statx) then
        program.addNotifSyscallFlag sc (if s.value = .statx then 2 else 3) statShimRawTag
      else .ok program
    else if s.value = .ioctl then program.addTraceSyscallArgs1 sc s.flags ioctlCmds
    else if s.value = .fcntl ∨ s.value = .fcntl64 then
      program.addTraceSyscallArgs1 sc s.flags fcntlTracedCmds
    else if cfg.userNotif ∧ isUserNotifSysnum s.value then
      program.addSyscallRet sc seccompRetUserNotif
    else program.addTraceSyscall sc s.flags

/-- One round of the loop over the architectures. -/
def addArchSection (cfg : FilterConfig) (sysnums : List FilteredSysnum) (program : SockFprog)
    (arch : UInt32) : Except Errno SockFprog := do
  let counts := sysnums.foldl (countSysnum cfg) ⟨0, 0, 0⟩
  let program ← program.startArchSection arch counts.nTrace (counts.ioctlExtra + counts.statExtra)
  let program ← sysnums.foldlM (addSysnum cfg) program
  program.endArchSection counts.nTrace (counts.ioctlExtra + counts.statExtra)

/-- `set_seccomp_filters` up to the installation: the program it hands to the
kernel. -/
def setSeccompFilters (cfg : FilterConfig) (sysnums : List FilteredSysnum) :
    Except Errno (List Insn) := do
  let program ← seccompArchs.foldlM (addArchSection cfg sysnums) .new
  let program := program.finalizeProgramFilter
  return program.filter.take program.len

end NeoProot.Seccomp
