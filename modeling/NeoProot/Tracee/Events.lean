import Mathlib.Data.List.Basic

/-!
# The stops of a tracee

`handle_tracee_event` looks at a stop of a tracee, translates the system call if it
is one, and says with which signal the tracee goes on.  While the tracer chains system
calls of its own behind one of the tracee, or has a call started again, a signal is
kept in `suppressed_signal` for the stop after which nothing is pending.

What a translation does beside the stops (the handlers of the call and of the
extensions) is a `Translation`, and what the tracer finds in its global variables,
which the other tracees share, comes with the stop.

## Main definitions

* `EventState` — a tracee, as far as stops are concerned.
* `translateSyscall`, `handleTraceeEvent` — what a stop does.
* `Watched`, `step` — a run of stops, with the signals received and injected.
-/

namespace NeoProot.Events

/-- `tracee->seccomp`. -/
inductive Seccomp
  | disabled | disabling | enabled
  deriving DecidableEq, Repr

/-- `tracee->sigstop`. -/
inductive Sigstop
  | ignored | allowed | pending
  deriving DecidableEq, Repr

/-- `tracee->restart_how`: unset, or a request of `ptrace`. -/
inductive RestartHow
  | unset | cont | syscall | singlestep | singleblock
  deriving DecidableEq, Repr

/-- A tracee between two stops.  `inExit` is `status != 0`, and `chain` the number of
system calls that are still registered.  `restarting` tells, beside the code, that a call
is started again and has neither come to its exit stop nor been answered. -/
structure EventState where
  exe : Bool
  inExit : Bool
  seccomp : Seccomp
  sysexitPending : Bool
  seccompAlreadyHandledEnter : Bool
  voidedSyscallCancelled : Bool
  chain : Option ℕ
  restoreAfterSeccomp : Bool
  suppressedSignal : Option ℕ
  sigstop : Sigstop
  restartHow : RestartHow
  lastRestartHow : RestartHow
  restarting : Bool
  aborted : Bool
  deriving DecidableEq

/-- What the translation of a stop does: whether the registers were read, how many system
calls it registers, whether it asks for the exit stop, whether the call is started again
or takes the tracee out of seccomp, whether it keeps the registers (the exit of `execve`),
and how the new call number could be written. -/
structure Translation where
  fetched : Bool
  chained : ℕ
  asksSyscall : Bool
  exitPending : Bool
  restarts : Bool
  disables : Bool
  keepsRegs : Bool
  retaken : Bool
  cancelled : Bool

/-! ### Chains -/

/-- Register `n` system calls. -/
def registerChained (chain : Option ℕ) (n : ℕ) : Option ℕ :=
  if n = 0 then chain else some (chain.getD 0 + n)

/-- Go on with the next system call of the chain, or end it. -/
def chainNextSyscall (s : EventState) : EventState :=
  match s.chain with
  | none => s
  | some 0 => { s with chain := none }
  | some (n + 1) => { s with chain := some n, restartHow := .syscall }

/-- A chained system call or one that was started again is not over. -/
def Pending (s : EventState) : Prop := s.chain ≠ none ∨ s.restarting = true

instance (s : EventState) : Decidable (Pending s) := inferInstanceAs (Decidable (_ ∨ _))

/-- The handlers of a translation, at either stage. -/
def handlers (s : EventState) (t : Translation) : EventState :=
  { s with
    chain := registerChained s.chain t.chained
    sysexitPending := s.sysexitPending || t.exitPending
    seccomp := if t.disables ∧ s.seccomp = .enabled then .disabling else s.seccomp
    restartHow := if t.asksSyscall then .syscall else s.restartHow }

/-- The enter stage. -/
def translateEnter (s : EventState) (t : Translation) : EventState :=
  let chained := s.chain.isSome
  let s := handlers s t
  let s := if chained then { s with restartHow := .syscall } else s
  let s := { s with voidedSyscallCancelled := t.cancelled }
  -- without an exit stop the tracee is in front of its next call at once
  if s.restartHow = .cont then
    if t.retaken then { s with inExit := true, restartHow := .syscall }
    else { s with inExit := false }
  else { s with inExit := true }

/-- The exit stage.  The flag is cleared by `push_specific_regs`, where that restores the
registers: the call is not started again, and no other follows it. -/
def translateExit (s : EventState) (t : Translation) : EventState :=
  let s := handlers s t
  let s := { s with inExit := false, restarting := t.restarts }
  let s := if t.restarts then { s with restoreAfterSeccomp := true, restartHow := .syscall } else s
  let s := chainNextSyscall s
  if t.restarts ∨ t.keepsRegs ∨ s.chain ≠ none then s else { s with restoreAfterSeccomp := false }

def translateSyscall (s : EventState) (t : Translation) : EventState :=
  if s.exe = false then { s with aborted := true }
  else if ¬ t.fetched then s
  else if s.inExit then translateExit s t
  else translateEnter s t

/-! ### Stops -/

def sigtrap : ℕ := 5
def sigstop : ℕ := 19
def sigsys : ℕ := 31

/-- What the tracer is told of a tracee, or does to it for another one. -/
inductive Event
  /-- `SIGTRAP`, with whether it is the first of all tracees. -/
  | trap (first : Bool) (t : Translation)
  | syscall (t : Translation)
  /-- The event of a filter, with the flag of its message. -/
  | seccomp (detected afterEnter : Bool) (sysexit : Option Bool) (t : Translation)
  | newChild
  | special
  | stop
  /-- `SIGSYS`, with what its `siginfo` says and how `handle_seccomp_event` ends. -/
  | sigsys (bySeccomp avoider : Bool) (t : Translation) (fetched restarts : Bool)
  | signal (signum : ℕ)
  /-- The parent's event of a new child was handled. -/
  | adopted
  /-- The next `SIGSTOP` is one of the tracer. -/
  | stopIgnored
  /-- A ptracee that is waited for was found.  The call is made again for the end of a child,
  which the kernel has to tell of too. -/
  | waited (again : Bool)

/-- `sysexit_necessary`. -/
def sysexitNecessary (s : EventState) : Bool :=
  s.sysexitPending || s.chain.isSome || s.restoreAfterSeccomp

/-- Whether a system call stop is translated. -/
def Translated (s : EventState) : Prop :=
  s.exe = true ∧ s.seccomp ≠ .disabling ∧ s.seccompAlreadyHandledEnter = false

instance (s : EventState) : Decidable (Translated s) := inferInstanceAs (Decidable (_ ∧ _ ∧ _))

/-- Take the kept signal, if nothing keeps it. -/
def redeliver (s : EventState) : EventState × Option ℕ :=
  if s.chain = none ∧ s.restoreAfterSeccomp = false then
    ({ s with suppressedSignal := none }, s.suppressedSignal)
  else (s, none)

/-- `case ENABLED`. -/
def nextStage (s : EventState) : EventState :=
  if s.seccomp ≠ .enabled then s
  else if s.inExit then { s with restartHow := .cont, sysexitPending := false }
  else { s with restartHow := .syscall, sysexitPending := true }

/-- A tracee that was taken out of seccomp gets all system call stops. -/
def leaveSeccomp (s : EventState) : EventState :=
  if s.seccomp = .disabling then { s with restartHow := .syscall, seccomp := .disabled } else s

/-- `case SIGTRAP | 0x80`. -/
def handleSyscallStop (s : EventState) (t : Translation) : EventState × Option ℕ :=
  if s.exe = false then ({ s with restartHow := .cont }, none)
  else if s.seccomp = .disabling then
    ({ s with seccomp := .disabled, inExit := true }, none)
  else
    let s := nextStage s
    if s.seccompAlreadyHandledEnter then
      (leaveSeccomp { s with seccompAlreadyHandledEnter := false, restartHow := .syscall }, none)
    else
      let r := redeliver (translateSyscall s t)
      (leaveSeccomp r.1, r.2)

/-- `case SIGTRAP | PTRACE_EVENT_SECCOMP << 8`. -/
def handleSeccompStop (s : EventState) (necessary detected afterEnter sysexit : Bool)
    (t : Translation) : EventState :=
  let now := if detected then afterEnter else s.inExit
  let s := if detected then s else { s with seccomp := .enabled }
  if now ∧ s.inExit then { s with restartHow := s.lastRestartHow }
  else if sysexit = false ∧ s.inExit then { s with aborted := true }
  else if s.seccomp ≠ .enabled then s
  else if sysexit ∨ necessary then
    let s := if now then translateSyscall { s with restartHow := .syscall } t else s
    { s with restartHow := .syscall }
  else
    let s := translateSyscall { s with restartHow := .cont } t
    let s := if s.seccomp = .disabling then { s with restartHow := .syscall } else s
    if afterEnter = false ∧ s.restartHow = .syscall ∧ s.voidedSyscallCancelled = false then
      { s with seccompAlreadyHandledEnter := true }
    else s

/-- `handle_seccomp_event`. -/
def handleSeccompEvent (s : EventState) (fetched restarts : Bool) : EventState × Option ℕ :=
  if fetched = false then (s, some sigsys)
  else if restarts then
    ({ s with
      inExit := false, restoreAfterSeccomp := true, restarting := true, restartHow := .syscall },
      none)
  else ({ s with inExit := false, restarting := false }, none)

/-- `case SIGSYS`. -/
def handleSigsys (s : EventState) (bySeccomp avoider : Bool) (t : Translation)
    (fetched restarts : Bool) : EventState × Option ℕ :=
  if bySeccomp = false then (s, some sigsys)
  else
    let s := { s with seccompAlreadyHandledEnter := false }
    let s := if s.inExit then translateSyscall s t else s
    if avoider then (s, none) else handleSeccompEvent s fetched restarts

/-- The signals of the `default` case. -/
def handleSignal (s : EventState) (signum : ℕ) : EventState × Option ℕ :=
  if s.chain ≠ none ∨ s.restoreAfterSeccomp = true then
    ({ s with suppressedSignal := some signum }, none)
  else (s, some signum)

/-- `restart_tracee`. -/
def restartTracee (s : EventState) : EventState :=
  let how := if s.restartHow = .unset then .syscall else s.restartHow
  { s with lastRestartHow := how, restartHow := .unset }

/-- The restart that `handle_tracee_event` begins with. -/
def chooseRestart (s : EventState) : EventState :=
  if s.restartHow = .unset then
    { s with
      restartHow := if s.seccomp = .enabled ∧ sysexitNecessary s = false then .cont else .syscall }
  else s

/-- Handle an event and restart the tracee, with the signal that is injected. -/
def handleTraceeEvent (s : EventState) : Event → EventState × Option ℕ
  | .trap first t =>
    let s := chooseRestart s
    let r := if first then handleSyscallStop s t else (s, some sigtrap)
    (restartTracee r.1, r.2)
  | .syscall t =>
    let r := handleSyscallStop (chooseRestart s) t
    (restartTracee r.1, r.2)
  | .seccomp detected afterEnter sysexit t =>
    let s' := chooseRestart s
    match sysexit with
    | none => (restartTracee s', none)
    | some sysexit =>
      (restartTracee
        (handleSeccompStop s' (sysexitNecessary s) detected afterEnter sysexit t), none)
  | .newChild => (restartTracee (chooseRestart s), none)
  | .special =>
    let s := chooseRestart s
    let s := if s.lastRestartHow = .unset then s else { s with restartHow := s.lastRestartHow }
    (restartTracee s, none)
  | .stop =>
    let s := chooseRestart s
    if s.exe = false then ({ s with sigstop := .pending }, none)
    else if s.sigstop = .ignored then (restartTracee { s with sigstop := .allowed }, none)
    else (restartTracee s, some sigstop)
  | .sigsys bySeccomp avoider t fetched restarts =>
    let r := handleSigsys (chooseRestart s) bySeccomp avoider t fetched restarts
    (restartTracee r.1, r.2)
  | .signal signum =>
    let r := handleSignal (chooseRestart s) signum
    (restartTracee r.1, r.2)
  | .adopted =>
    let s := { s with exe := true }
    if s.sigstop = .pending then (restartTracee { s with sigstop := .allowed }, none) else (s, none)
  | .stopIgnored => ({ s with sigstop := .ignored }, none)
  | .waited again =>
    let s := if again then chainNextSyscall { s with chain := registerChained s.chain 1 } else s
    (restartTracee s, none)

/-! ### The signals of a run -/

/-- The signal for the tracee that an event is.  The stop of a new child and those that
the tracer asked for are not for the tracee, nor is a `SIGSYS` of a system call that
the tracer answers. -/
def receivedSignal (s : EventState) : Event → Option ℕ
  | .trap first _ => if first then none else some sigtrap
  | .stop => if s.exe = true ∧ s.sigstop ≠ .ignored then some sigstop else none
  | .sigsys bySeccomp avoider _ fetched _ =>
    if bySeccomp = false ∨ (avoider = false ∧ fetched = false) then some sigsys else none
  | .signal signum => some signum
  | _ => none

/-- A tracee with the signals it received and those it was restarted with, whether one was
injected while a call was pending, and whether one was kept although none was. -/
structure Watched where
  state : EventState
  received : List ℕ
  injected : List ℕ
  early : Bool
  late : Bool

/-- A signal is kept and nothing is pending, after a stop that could have injected it. -/
def KeptLate (s : EventState) (e : Event) (r : EventState × Option ℕ) : Prop :=
  match e with
  | .signal _ => r.2 = none ∧ ¬ Pending r.1
  | .trap true _ | .syscall _ => Translated s ∧ r.1.suppressedSignal ≠ none ∧ ¬ Pending r.1
  | _ => False

instance (s : EventState) (e : Event) (r : EventState × Option ℕ) : Decidable (KeptLate s e r) := by
  unfold KeptLate
  split <;> infer_instance

/-- One event of the tracee; after a failed assertion there is no tracer any more. -/
def step (w : Watched) (e : Event) : Watched :=
  if w.state.aborted then w
  else
    let r := handleTraceeEvent w.state e
    { state := r.1
      received := w.received ++ (receivedSignal w.state e).toList
      injected := w.injected ++ r.2.toList
      early := w.early || decide (r.2 ≠ none ∧ Pending r.1)
      late := w.late || decide (KeptLate w.state e r) }

/-- A new tracee, with what it has from its parent or from the launch. -/
def newTracee (exe : Bool) (seccomp : Seccomp) (sysexitPending : Bool) : Watched :=
  { state :=
      { exe := exe, inExit := false, seccomp := seccomp, sysexitPending := sysexitPending
        seccompAlreadyHandledEnter := false, voidedSyscallCancelled := false, chain := none
        restoreAfterSeccomp := false, suppressedSignal := none, sigstop := .ignored
        restartHow := .unset, lastRestartHow := .unset, restarting := false, aborted := false }
    received := [], injected := [], early := false, late := false }

end NeoProot.Events
