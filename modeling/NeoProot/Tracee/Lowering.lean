import NeoProot.Execve.Aoxp
import NeoProot.Lib.Moves
import NeoProot.Syscall.Chain
import NeoProot.Tracee.Mem

/-!
# Lowering of system calls

A filter above the tracer traps system calls that it does not know, old ones for the most part.
The tracer gives such a call the number and the arguments of a newer one, and the tracee makes
that call instead.

## Main definitions

* `Sysnum`, `Sysnums` — the system calls that are rewritten and what they become, and a table of
  numbers.
* `Tracee.trapped`, `Tracee.refused` — the trapped call and the call that the kernel does not have.
* `Tracee.handleSeccompEventCommon` — the rewriting.
-/

namespace NeoProot.Lowering
open Chain (Reg Regs)
open Moves Mem

/-- The calls of `sysnums.list` that are rewritten, and those that they become. -/
inductive Sysnum
  | prVoid
  | prOpen | prSymlink | prLink | prChmod | prChown | prLchown | prChown32 | prLchown32
  | prUnlink | prRmdir | prStat | prLstat | prAccess | prMkdir | prRename | prAccept
  | prFaccessat2 | prSend | prRecv | prWaitpid | prPipe | prDup2 | prEpollWait
  | prUtimes | prUtime
  | prOpenat | prSymlinkat | prLinkat | prFchmodat | prFchownat | prUnlinkat | prNewfstatat
  | prFaccessat | prMkdirat | prRenameat | prAccept4 | prSendto | prRecvfrom | prWait4
  | prPipe2 | prDup3 | prEpollPwait | prUtimensat
  | prOther (index : ℕ)
  deriving DecidableEq, Repr

/-- `Sysnums`: the table of an ABI, from its number 0 on. -/
structure Sysnums where
  table : List Sysnum
  length_lt : table.length < 2 ^ 64

variable (abi : Sysnums)

/-- `translate_sysnum`. -/
def Sysnums.translate (sysnum : UInt64) : Sysnum := abi.table[sysnum.toNat]?.getD .prVoid

/-- `detranslate_sysnum`. -/
def Sysnums.detranslate (sysnum : Sysnum) : UInt64 :=
  if sysnum = .prVoid then Chain.syscallAvoider
  else
    match abi.table.findIdx? (· = sysnum) with
    | some i => UInt64.ofNat i
    | none => Chain.syscallAvoider

/-- The entries of `sysnums-arm64.h`. -/
def arm64Entry : ℕ → Sysnum
  | 22 => .prEpollPwait
  | 24 => .prDup3
  | 34 => .prMkdirat
  | 35 => .prUnlinkat
  | 36 => .prSymlinkat
  | 37 => .prLinkat
  | 38 => .prRenameat
  | 48 => .prFaccessat
  | 53 => .prFchmodat
  | 54 => .prFchownat
  | 56 => .prOpenat
  | 59 => .prPipe2
  | 88 => .prUtimensat
  | 202 => .prAccept
  | 206 => .prSendto
  | 207 => .prRecvfrom
  | 242 => .prAccept4
  | 260 => .prWait4
  | 439 => .prFaccessat2
  | i =>
    if 245 ≤ i ∧ i < 260 ∨ 292 ≤ i ∧ i < 435 ∨ i = 438 ∨ i = 440 ∨ i = 441 ∨
      443 ≤ i ∧ i < 452 then .prVoid
    else .prOther i

/-- `sysnums_arm64`, the one table that the sources have. -/
def sysnumsArm64 : Sysnums where
  table := (List.range 453).map arm64Entry
  length_lt := by rw [List.length_map, List.length_range]; decide

/-- `AT_FDCWD`. -/
def atFdcwd : UInt64 := 0 - 100

/-- `AT_SYMLINK_NOFOLLOW`. -/
def atSymlinkNofollow : UInt64 := 0x100

/-- `AT_REMOVEDIR`. -/
def atRemovedir : UInt64 := 0x200

/-- An argument, the first one is 0. -/
abbrev arg (i : Fin 6) : Source Reg UInt64 := .reg (.sysarg i)

/-- A word of a structure that was read. -/
def field (bytes : List UInt8) (i : ℕ) : UInt64 :=
  UInt64.ofNat (LittleEndian.decode ((bytes.drop (i * wordSize)).take wordSize))

/-- The bytes of a structure of words. -/
def structureBytes (fields : List UInt64) : List UInt8 :=
  (fields.map fun w => LittleEndian.encode wordSize w.toNat).flatten

/-- Two `struct timeval` as two `struct timespec`. -/
def timensOfTimeval (bytes : List UInt8) : List UInt64 :=
  [field bytes 0, field bytes 1 * 1000, field bytes 2, field bytes 3 * 1000]

/-- A `struct utimbuf` as two `struct timespec`. -/
def timensOfUtimbuf (bytes : List UInt8) : List UInt64 := [field bytes 0, 0, field bytes 1, 0]

/-- The fields of a tracee that the rewriting uses, and the registers of the thread itself. -/
structure Tracee where
  abi : Sysnums
  current : Regs
  original : Regs
  originalSeccompRewrite : Regs
  process : Regs
  regsWereChanged : Bool
  restoreOriginalRegs : Bool
  restoreOriginalRegsAfterSeccompEvent : Bool
  restoreSysarg1AfterSigsys : Bool
  access : Access
  memory : TraceeMemory

/-- What becomes of a call: the tracee makes it again, or has a result. -/
inductive Outcome
  | restarted (t : Tracee)
  | answered (t : Tracee)

namespace Tracee

/-- `poke_reg`. -/
def pokeReg (t : Tracee) (r : Reg) (value : UInt64) : Tracee :=
  if t.current.reg r = value then t
  else { t with
    current := { t.current with reg := Function.update t.current.reg r value }
    regsWereChanged := true }

/-- Registers are poked, each with a constant or with what `peek_reg` says then. -/
def pokeRegs (t : Tracee) (moves : List (Move Reg UInt64)) : Tracee :=
  moves.foldl (fun t move => t.pokeReg move.1 (move.2.eval t.current.reg)) t

/-- `poke_reg` of the instruction pointer. -/
def pokeInstrPointer (t : Tracee) (value : UInt64) : Tracee :=
  if t.current.instrPointer = value then t
  else { t with current := { t.current with instrPointer := value }, regsWereChanged := true }

/-- `push_specific_regs` without the number of the call. -/
def pushSpecificRegs (t : Tracee) : Tracee :=
  if ¬ t.regsWereChanged ∧ ¬ (t.restoreOriginalRegs ∧ t.restoreOriginalRegsAfterSeccompEvent) then t
  else if t.restoreOriginalRegs then
    let source :=
      if t.restoreOriginalRegsAfterSeccompEvent then t.originalSeccompRewrite else t.original
    -- The register of the result, which is the first argument, is not restored.
    let restored : Regs :=
      { t.current with
        reg := Function.update source.reg Chain.sysargResult (t.current.reg Chain.sysargResult) }
    { t with
      restoreOriginalRegsAfterSeccompEvent := false
      current := restored
      process := restored }
  else { t with process := t.current }

/-- `restart_syscall_after_seccomp`. -/
def restartSyscallAfterSeccomp (t : Tracee) : Tracee :=
  let t := { t with restoreOriginalRegsAfterSeccompEvent := true }
  (t.pokeInstrPointer (t.current.instrPointer - Chain.systrapSize)).pushSpecificRegs

/-- `set_result_after_seccomp`. -/
def setResultAfterSeccomp (t : Tracee) (result : UInt64) : Tracee :=
  (t.pokeReg Chain.sysargResult result).pushSpecificRegs

/-- `get_sysnum` of the current registers. -/
def getSysnum (t : Tracee) : Sysnum := t.abi.translate (t.current.reg .sysargNum)

/-- `set_sysnum`. -/
def setSysnum (t : Tracee) (sysnum : Sysnum) : Tracee :=
  t.pokeReg .sysargNum (t.abi.detranslate sysnum)

/-- `TRANSFORM_TO_AT_SYS`. -/
def transformToAtSys (t : Tracee) (newSys : Sysnum) (fd path : Source Reg UInt64)
    (more : List (Move Reg UInt64)) : Outcome :=
  .restarted ((t.setSysnum newSys).pokeRegs
    ((.sysarg 0, fd) :: (.sysarg 1, path) :: more)).restartSyscallAfterSeccomp

/-- `transform_simple_syscall`: an argument that is not to be poked is `none`. -/
def transformSimpleSyscall (t : Tracee) (newSys : Sysnum)
    (arg4 arg5 arg6 : Option UInt64) : Outcome :=
  .restarted ((t.setSysnum newSys).pokeRegs
    ((arg4.toList.map fun a => (.sysarg 3, .const a)) ++
      (arg5.toList.map fun a => (.sysarg 4, .const a)) ++
        (arg6.toList.map fun a => (.sysarg 5, .const a)))).restartSyscallAfterSeccomp

/-! ### Times -/

/-- `set_sysarg_data`, and whether it succeeds. -/
def setSysargData (t : Tracee) (data : List UInt8) (r : Reg) : Tracee × Bool :=
  let traceePtr := Aoxp.allocMem
    ⟨(t.current.reg .stackPointer).toNat, (t.original.reg .stackPointer).toNat, 0⟩ data.length
  if traceePtr = 0 then (t, false)
  else
    let t := t.pokeReg .stackPointer (UInt64.ofNat traceePtr)
    match writeData t.access t.memory traceePtr data with
    | (memory, false) => ({ t with memory }, false)
    | (memory, true) => (({ t with memory } : Tracee).pokeReg r (UInt64.ofNat traceePtr), true)

/-- `-EFAULT` as a result. -/
def efaultResult : UInt64 := 0 - 14

/-- `utimes` and `utime`: the structure at the second argument is converted. -/
def lowerUtimes (t : Tracee) (size : ℕ) (timens : List UInt8 → List UInt64) : Outcome :=
  let path := t.current.reg (.sysarg 0)
  let times := t.current.reg (.sysarg 1)
  let moves : List (Move Reg UInt64) := [(.sysarg 2, .const times), (.sysarg 3, .const 0)]
  if times = 0 then t.transformToAtSys .prUtimensat (.const atFdcwd) (.const path) moves
  else
    match readData t.access t.memory times.toNat size with
    | none => .answered (t.setResultAfterSeccomp efaultResult)
    | some bytes =>
      match t.setSysargData (structureBytes (timens bytes)) (.sysarg 1) with
      | (t, false) => .answered (t.setResultAfterSeccomp efaultResult)
      | (t, true) => t.transformToAtSys .prUtimensat (.const atFdcwd) (.const path) moves

/-! ### The rewriting -/

/-- `handle_seccomp_event_common` when no extension answers.  The calls that it answers, and
those that it rewrites in ways of their own, are `none`. -/
def handleSeccompEventCommon (t : Tracee) : Option Outcome :=
  match t.getSysnum with
  | .prOpen => some (t.transformToAtSys .prOpenat (.const atFdcwd) (arg 0)
      [(.sysarg 2, arg 1), (.sysarg 3, arg 2)])
  | .prSymlink => some (t.transformToAtSys .prSymlinkat (arg 0) (.const atFdcwd)
      [(.sysarg 2, arg 1)])
  | .prLink => some (t.transformToAtSys .prLinkat (.const atFdcwd) (arg 0)
      [(.sysarg 2, .const atFdcwd), (.sysarg 3, arg 1), (.sysarg 4, .const 0)])
  | .prChmod => some (t.transformToAtSys .prFchmodat (.const atFdcwd) (arg 0)
      [(.sysarg 2, arg 1), (.sysarg 3, .const 0)])
  | .prChown | .prChown32 => some (t.transformToAtSys .prFchownat (.const atFdcwd) (arg 0)
      [(.sysarg 2, arg 1), (.sysarg 3, arg 2), (.sysarg 4, .const 0)])
  | .prLchown | .prLchown32 => some (t.transformToAtSys .prFchownat (.const atFdcwd) (arg 0)
      [(.sysarg 2, arg 1), (.sysarg 3, arg 2), (.sysarg 4, .const atSymlinkNofollow)])
  | .prUnlink => some (t.transformToAtSys .prUnlinkat (.const atFdcwd) (arg 0)
      [(.sysarg 2, .const 0)])
  | .prRmdir => some (t.transformToAtSys .prUnlinkat (.const atFdcwd) (arg 0)
      [(.sysarg 2, .const atRemovedir)])
  | .prStat => some (t.transformToAtSys .prNewfstatat (.const atFdcwd) (arg 0)
      [(.sysarg 2, arg 1), (.sysarg 3, .const 0)])
  | .prLstat => some (t.transformToAtSys .prNewfstatat (.const atFdcwd) (arg 0)
      [(.sysarg 2, arg 1), (.sysarg 3, .const atSymlinkNofollow)])
  | .prAccess => some (t.transformToAtSys .prFaccessat (.const atFdcwd) (arg 0)
      [(.sysarg 2, arg 1), (.sysarg 3, .const 0)])
  | .prMkdir => some (t.transformToAtSys .prMkdirat (.const atFdcwd) (arg 0)
      [(.sysarg 2, arg 1)])
  | .prRename => some (t.transformToAtSys .prRenameat (.const atFdcwd) (arg 0)
      [(.sysarg 2, .const atFdcwd), (.sysarg 3, arg 1)])
  | .prAccept => some (t.transformSimpleSyscall .prAccept4 (some 0) none none)
  | .prFaccessat2 =>
    let accessFlags := t.current.reg (.sysarg 3)
    some (.restarted (((t.setSysnum .prFaccessat).pokeReg (.sysarg 3)
      (accessFlags &&& atSymlinkNofollow)).restartSyscallAfterSeccomp))
  | .prSend => some (t.transformSimpleSyscall .prSendto none (some 0) (some 0))
  | .prRecv => some (t.transformSimpleSyscall .prRecvfrom none (some 0) (some 0))
  | .prWaitpid => some (t.transformSimpleSyscall .prWait4 (some 0) none none)
  | .prPipe => some (t.transformSimpleSyscall .prPipe2 (some 0) none none)
  | .prDup2 => some (t.transformSimpleSyscall .prDup3 (some 0) none none)
  | .prEpollWait => some (t.transformSimpleSyscall .prEpollPwait none (some 0) (some 0))
  | .prUtimes => some (t.lowerUtimes 32 timensOfTimeval)
  | .prUtime => some (t.lowerUtimes 16 timensOfUtimbuf)
  | _ => none

/-! ### The two ways in -/

/-- How `handle_seccomp_event` begins, with the registers that were fetched. -/
def trapped (t : Tracee) (fetched : Regs) : Tracee :=
  let t := { t with current := fetched }
  let t :=
    -- The result of a call that the tracer answered may stand in the first argument.
    if t.restoreSysarg1AfterSigsys ∧ t.abi.translate (t.original.reg .sysargNum) = t.getSysnum then
      t.pokeReg (.sysarg 0) (t.original.reg (.sysarg 0))
    else t
  { t with
    restoreSysarg1AfterSigsys := false
    restoreOriginalRegs := false
    originalSeccompRewrite := t.current }

/-- How `fix_and_restart_enosys_syscall` begins. -/
def refused (t : Tracee) : Tracee :=
  { t with
    restoreOriginalRegs := false
    current := t.original
    originalSeccompRewrite := t.original }

end Tracee

end NeoProot.Lowering
