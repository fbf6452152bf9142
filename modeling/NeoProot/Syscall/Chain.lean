import NeoProot.Basic
import NeoProot.Lib.Run
import Mathlib.Data.Nat.Notation
import Mathlib.Logic.Function.Basic

/-!
# Chained system calls

A handler may ask for further system calls in the name of the guest.  They wait in a queue, and
each exit stop takes the first of them: it writes its number and its arguments to the registers,
and moves the instruction pointer back to the trap, so that the guest makes the call itself.  When
the queue is empty it is freed, and the guest goes on with the registers it had.

A system call whose number cannot be changed at its entry stop is made to fail, and the call that
it should have been is put in the queue: the workaround.

## Main definitions

* `chainNextSyscall` — the next call of the queue, or its end.
* `State.enterStop`, `State.exitStop` — the two stops of a system call.
* `State.step` — both stops, and the kernel between them.
-/

namespace NeoProot.Chain

/-- The registers that handlers read and write. -/
inductive Reg
  | sysargNum
  | sysarg (i : Fin 6)
  | stackPointer
  deriving DecidableEq, Repr

/-- `SYSARG_RESULT` is the register of the first argument. -/
abbrev sysargResult : Reg := .sysarg 0

/-- The registers of a thread. -/
structure Regs where
  reg : Reg → UInt64
  instrPointer : UInt64

/-- The numbers of an ABI: `translate_sysnum`, `detranslate_sysnum`, and whether one is
`PR_brk`. -/
structure Sysnums (Sysnum : Type*) where
  translate : UInt64 → Sysnum
  detranslate : Sysnum → UInt64
  isBrk : Sysnum → Bool

/-- `SYSCALL_AVOIDER`, the number of `PR_void`. -/
def syscallAvoider : UInt64 := 0 - 1

/-- `SYSTRAP_SIZE`. -/
def systrapSize : UInt64 := 4

/-- `struct chained_syscall`. -/
structure ChainedSyscall (Sysnum : Type*) where
  sysnum : Sysnum
  sysargs : Fin 6 → UInt64

/-- A call as the kernel executes it: its number and its arguments. -/
abbrev KernelCall := UInt64 × (Fin 6 → UInt64)

/-- `sysnum_workaround_state`. -/
inductive Workaround
  | inactive
  | processFaultyCall
  | processReplacedCall
  deriving DecidableEq, Repr

/-- What a run has asked for and what it has done; the tracer has no such record. -/
structure History (Sysnum : Type*) where
  registered : List (ChainedSyscall Sysnum)
  executed : List KernelCall
  forced : Option UInt64
  last : UInt64

/-- The fields of a tracee that its chain uses. -/
structure Tracee (Sysnum : Type*) where
  syscalls : Option (List (ChainedSyscall Sysnum))
  forceFinalResult : Bool
  finalResult : UInt64
  workaround : Workaround
  current : Regs
  original : Regs
  regsWereChanged : Bool
  restoreOriginalRegs : Bool
  history : History Sysnum

/-- The thread as the kernel sees it: its registers, and the number of the call it is in. -/
structure Process where
  regs : Regs
  sysnum : UInt64

variable {Sysnum : Type*} (abi : Sysnums Sysnum)

/-- The call that a chained one is. -/
def ChainedSyscall.kernelCall (c : ChainedSyscall Sysnum) : KernelCall :=
  (abi.detranslate c.sysnum, c.sysargs)

/-- The call that some registers describe. -/
def Regs.syscall (regs : Regs) : ChainedSyscall Sysnum :=
  ⟨abi.translate (regs.reg .sysargNum), fun i => regs.reg (.sysarg i)⟩

namespace Tracee

/-- `poke_reg`. -/
def pokeReg (t : Tracee Sysnum) (r : Reg) (value : UInt64) : Tracee Sysnum :=
  if t.current.reg r = value then t
  else { t with
    current := { t.current with reg := Function.update t.current.reg r value }
    regsWereChanged := true }

/-- `poke_reg` of the instruction pointer. -/
def pokeInstrPointer (t : Tracee Sysnum) (value : UInt64) : Tracee Sysnum :=
  if t.current.instrPointer = value then t
  else { t with current := { t.current with instrPointer := value }, regsWereChanged := true }

/-- Several arguments are poked, in order. -/
def pokeSysargs (t : Tracee Sysnum) (values : Fin 6 → UInt64) : Tracee Sysnum :=
  (List.finRange 6).foldl (fun t i => t.pokeReg (.sysarg i) (values i)) t

/-- `register_chained_syscall_internal`.  The record has a call that goes to the front before
those that are still to come. -/
def registerChainedSyscallInternal (t : Tracee Sysnum) (call : ChainedSyscall Sysnum)
    (atFront : Bool) : Tracee Sysnum :=
  let queue := t.syscalls.getD []
  let history := t.history
  let index := history.registered.length - queue.length
  if atFront then
    { t with
      syscalls := some (call :: queue)
      history := { history with registered := history.registered.insertIdx index call } }
  else
    { t with
      syscalls := some (queue ++ [call])
      history := { history with registered := history.registered ++ [call] } }

/-- `register_chained_syscall`. -/
def registerChainedSyscall (t : Tracee Sysnum) (call : ChainedSyscall Sysnum) : Tracee Sysnum :=
  t.registerChainedSyscallInternal call false

/-- `force_chain_final_result`. -/
def forceChainFinalResult (t : Tracee Sysnum) (forcedResult : UInt64) : Tracee Sysnum :=
  { t with
    forceFinalResult := true
    finalResult := forcedResult
    history := { t.history with forced := some forcedResult } }

/-- `restart_original_syscall`. -/
def restartOriginalSyscall (t : Tracee Sysnum) : Tracee Sysnum :=
  t.registerChainedSyscall (t.original.syscall abi)

/-- `restart_current_syscall_as_chained`, or its failed assertion. -/
def restartCurrentSyscallAsChained (t : Tracee Sysnum) : Option (Tracee Sysnum) :=
  if t.workaround ≠ .inactive then none
  else
    some ({ t with workaround := .processFaultyCall }.registerChainedSyscallInternal
      (t.current.syscall abi) true)

/-- `chain_next_syscall`, for a queue that is there. -/
def chainNextSyscall (t : Tracee Sysnum) : List (ChainedSyscall Sysnum) → Tracee Sysnum
  | [] =>
    let t := { t with syscalls := none }
    let t := if t.forceFinalResult then t.pokeReg sysargResult t.finalResult else t
    { t with forceFinalResult := false, finalResult := 0 }
  | syscall :: rest =>
    let t := { t with restoreOriginalRegs := false, syscalls := some rest }
    let t := t.pokeSysargs syscall.sysargs
    let t := t.pokeReg .sysargNum (abi.detranslate syscall.sysnum)
    t.pokeInstrPointer (t.current.instrPointer - systrapSize)

/-- The next chained call is inserted, if there is a chain. -/
def insertNext (t : Tracee Sysnum) : Tracee Sysnum :=
  match t.syscalls with
  | some queue => t.chainNextSyscall abi queue
  | none => t

/-- The registers with those of the original call, but for the result. -/
def restored (t : Tracee Sysnum) : Regs :=
  { t.current with
    reg := fun r => if r = sysargResult then t.current.reg r else t.original.reg r }

/-- `push_specific_regs`: whether it succeeds.  With `refused` the kernel does not change the
number of a call. -/
def pushSpecificRegs (t : Tracee Sysnum) (p : Process) (includingSysnum refused : Bool) :
    Bool × Tracee Sysnum × Process :=
  if !t.regsWereChanged then (true, t, p)
  else
    let t := if t.restoreOriginalRegs then { t with current := t.restored } else t
    if includingSysnum ∧ t.current.reg .sysargNum ≠ t.original.reg .sysargNum then
      if refused then (false, t, p) else (true, t, ⟨t.current, t.current.reg .sysargNum⟩)
    else (true, t, { p with regs := t.current })

end Tracee

/-- What a handler does: it pokes a register, or it asks for a call or a result. -/
inductive Request (Sysnum : Type*)
  | poke (r : Reg) (value : UInt64)
  | register (call : ChainedSyscall Sysnum)
  | restartOriginal
  | restartCurrent
  | force (result : UInt64)

/-- One request. -/
def Tracee.request (t : Tracee Sysnum) : Request Sysnum → Option (Tracee Sysnum)
  | .poke r value => some (t.pokeReg r value)
  | .register call => some (t.registerChainedSyscall call)
  | .restartOriginal => some (t.restartOriginalSyscall abi)
  | .restartCurrent => t.restartCurrentSyscallAsChained abi
  | .force result => some (t.forceChainFinalResult result)

/-- The handlers of a stop. -/
def Tracee.handle (t : Tracee Sysnum) : List (Request Sysnum) → Option (Tracee Sysnum)
  | [] => some t
  | r :: rs => (t.request abi r).bind fun t => t.handle rs

/-- `restart_how`. -/
inductive RestartHow
  | cont
  | syscall
  deriving DecidableEq, Repr

/-- An entry stop: what the handlers do, the error that the translation ends with, how the thread
is to be restarted, and whether the kernel refuses another number. -/
structure Entry (Sysnum : Type*) where
  requests : List (Request Sysnum)
  error : Option UInt64
  restartHow : RestartHow
  refused : Bool

/-- A system call: its entry stop, the result that the kernel gives, and what the handlers of its
exit stop do. -/
structure Round (Sysnum : Type*) where
  entry : Entry Sysnum
  result : UInt64
  exit : List (Request Sysnum)

/-- Where the thread is: at a system call, in it, behind the last one; or the tracer is dead. -/
inductive Stage
  | atEntry
  | inKernel
  | finished
  | aborted
  deriving DecidableEq, Repr

/-- The thread and its tracer, from a system call of the guest on; `trap` is the address behind the
instruction that makes it. -/
structure State (Sysnum : Type*) where
  tracee : Tracee Sysnum
  process : Process
  trap : UInt64
  stage : Stage

/-- The kernel executes the call that the thread is in. -/
def execute (t : Tracee Sysnum) (p : Process) : Tracee Sysnum :=
  { t with history := { t.history with
      executed := t.history.executed ++ [(p.sysnum, fun i => p.regs.reg (.sysarg i))] } }

/-- Arguments with which a call fails; `brk` only answers. -/
def Tracee.failSysargs (t : Tracee Sysnum) : Tracee Sysnum :=
  let t := t.pokeSysargs fun _ => 0 - 1
  if abi.isBrk (abi.translate (t.original.reg .sysargNum)) then t.pokeReg (.sysarg 0) 0 else t

/-- The workaround for a number that could not be changed. -/
def Tracee.failCall (t : Tracee Sysnum) (p : Process) : Option (Tracee Sysnum × Process) :=
  let restarted := if t.current.reg .sysargNum ≠ syscallAvoider then
    t.restartCurrentSyscallAsChained abi else some t
  restarted.map fun t => ((t.failSysargs abi).pushSpecificRegs p false false).2

/-- `save_current_regs(ORIGINAL)`. -/
def Tracee.saveOriginal (t : Tracee Sysnum) : Tracee Sysnum :=
  { t with original := t.current, regsWereChanged := false }

/-- What follows the translation: a call that failed is avoided, and the stack pointer is restored
where there is no exit stop to do it. -/
def Tracee.endEntry (t : Tracee Sysnum) (e : Entry Sysnum) : Tracee Sysnum :=
  let t := match e.error with
    | some error => (t.pokeReg .sysargNum syscallAvoider).pokeReg sysargResult error
    | none => t
  if e.restartHow = .cont then t.pokeReg .stackPointer (t.original.reg .stackPointer) else t

/-- What the entry stop does before the registers are written. -/
def Tracee.translateEntry (t : Tracee Sysnum) (e : Entry Sysnum) :
    Option (Tracee Sysnum × RestartHow) :=
  match t.syscalls with
  | some _ => some (t, .syscall)
  | none => (t.saveOriginal.handle abi e.requests).map fun t => (t.endEntry e, e.restartHow)

namespace State

/-- The thread goes on into the kernel, and to its exit stop if it has one. -/
def restart (s : State Sysnum) (t : Tracee Sysnum) (p : Process) (how : RestartHow) :
    State Sysnum :=
  { s with
    tracee := execute t p
    process := p
    stage := if how = .cont then .finished else .inKernel }

/-- The entry stop: `translate_syscall` in the enter stage. -/
def enterStop (s : State Sysnum) (e : Entry Sysnum) : State Sysnum :=
  let t := { s.tracee with current := s.process.regs, restoreOriginalRegs := false }
  match t.translateEntry abi e with
  | none => { s with stage := .aborted }
  | some (t, how) =>
    match t.pushSpecificRegs s.process t.syscalls.isNone e.refused with
    | (true, t, p) => s.restart t p how
    | (false, t, p) =>
      let how := if t.current.reg .sysargNum ≠ syscallAvoider then how else .syscall
      match t.failCall abi p with
      | none => { s with stage := .aborted }
      | some (t, p) => s.restart t p how

/-- The handlers of the exit stop. -/
def exitHandlers (t : Tracee Sysnum) (requests : List (Request Sysnum)) :
    Option (Tracee Sysnum) :=
  if t.syscalls.isNone ∨ t.workaround = .processReplacedCall then
    { t with workaround := .inactive }.handle abi requests
  else if t.workaround = .processFaultyCall then
    some { t with workaround := .processReplacedCall }
  else t.handle abi requests

/-- The result as the handlers leave it. -/
def answer (result : UInt64) : List (Request Sysnum) → UInt64
  | [] => result
  | .poke r value :: rs => answer (if r = sysargResult then value else result) rs
  | _ :: rs => answer result rs

/-- The thread after its exit stop: at the trap again, or back in its program. -/
def resume (s : State Sysnum) (t : Tracee Sysnum) (p : Process) : State Sysnum :=
  if p.regs.instrPointer + systrapSize = s.trap then
    { s with
      tracee := t
      process := ⟨{ p.regs with instrPointer := s.trap }, p.regs.reg .sysargNum⟩
      stage := .atEntry }
  else { s with tracee := t, process := p, stage := .finished }

/-- The exit stop: `translate_syscall` in the exit stage. -/
def exitStop (s : State Sysnum) (result : UInt64) (requests : List (Request Sysnum)) :
    State Sysnum :=
  let regs := { s.process.regs with
    reg := Function.update s.process.regs.reg sysargResult result }
  let last := if s.tracee.syscalls.isSome ∧ s.tracee.workaround = .processFaultyCall then result
    else answer result requests
  let t := { s.tracee with
    current := regs
    restoreOriginalRegs := true
    history := { s.tracee.history with last := last } }
  match exitHandlers abi t requests with
  | none => { s with stage := .aborted }
  | some t =>
    let pushed := (t.insertNext abi).pushSpecificRegs { s.process with regs := regs } false false
    s.resume pushed.2.1 pushed.2.2

/-- The end of a system call that has no exit stop. -/
def leave (s : State Sysnum) (result : UInt64) : State Sysnum :=
  { s with
    tracee := { s.tracee with history := { s.tracee.history with last := result } }
    process := { s.process with regs := { s.process.regs with
      reg := Function.update s.process.regs.reg sysargResult result } } }

/-- A system call; when the last one is over, nothing happens any more. -/
def step (s : State Sysnum) (r : Round Sysnum) : State Sysnum :=
  if s.stage ≠ .atEntry then s
  else
    let s := s.enterStop abi r.entry
    match s.stage with
    | .inKernel => s.exitStop abi r.result r.exit
    | .finished => s.leave r.result
    | _ => s

/-- A system call of the guest, with no chain. -/
def start (regs : Regs) : State Sysnum where
  tracee := ⟨none, false, 0, .inactive, regs, regs, false, false, ⟨[], [], none, 0⟩⟩
  process := ⟨regs, regs.reg .sysargNum⟩
  trap := regs.instrPointer
  stage := .atEntry

end State

end NeoProot.Chain
