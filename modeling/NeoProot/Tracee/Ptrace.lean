import Mathlib.Data.Nat.Notation
import NeoProot.Tracee.Population
import Mathlib.Algebra.Ring.Nat

/-!
# Ptracers and their ptracees

PRoot emulates `ptrace` among its tracees.  A ptracee points at its ptracer, which counts its
ptracees, the ones that have ended and are not collected yet (zombies) included, and which may
wait in PRoot for the next event of one of them.

## Main definitions

* `PtraceOp`, `Population.step` — what happens to the tracees.
* `Population.Balanced` — what each counter owes.
* `Population.Sound` — the counters are right, and every pointer to a ptracer leads to one.
* `Population.Right`, `Population.Allowed` — the steps after which the books are right, and those
  that keep them.
-/

namespace NeoProot.Ptrace

/-! ### Waiting -/

/-- `EXPECTED_WAIT_CLONE`, with `__WALL` and `__WCLONE`. -/
def expectedWaitClone (options : ℕ) (clone : Bool) : Bool :=
  options.testBit 30 || options.testBit 31 && clone || !options.testBit 31 && !clone

/-- `WNOHANG`. -/
def wnohang (options : ℕ) : Bool := options.testBit 0

/-- What a `wait` finds. -/
inductive Waited
  | zombie (z : Zombie)
  | tracee (t : Process)
  deriving DecidableEq, Repr

/-- An event of a ptracee, with what the flags of the ptracee make of it: a system call, which may
be ignored, on its way in or out; an event of `PTRACE_O_TRACE...`, which may be wanted; one of
seccomp; `SIGSYS`, which may be suppressed; another signal; the end. -/
inductive PtraceeEvent
  | syscall (ignored exit : Bool)
  | special (wanted : Bool)
  | seccomp
  | sigsys (suppressed : Bool)
  | signal
  | ends
  deriving DecidableEq, Repr

/-- As `handle_tracee_event` takes it. -/
def PtraceeEvent.kind : PtraceeEvent → EventKind
  | .ends => .ends
  | _ => .stops

/-- What happens to the tracees.  The number of a new tracee comes with it, and `faults` tells that
the status of a `wait` cannot be written. -/
inductive PtraceOp
  /-- `PTRACE_TRACEME`. -/
  | traceme (i : ℕ)
  /-- `PTRACE_ATTACH`. -/
  | attach (i pid : ℕ)
  /-- The requests that have a stopped ptracee go on; `PTRACE_DETACH` is one. -/
  | request (i : ℕ) (pid : ℤ) (detach : Bool)
  | waitEnter (i : ℕ) (pid : ℤ)
  | waitExit (i : ℕ) (pid : ℤ) (options : ℕ) (faults : Bool)
  /-- A pid that is not known stops. -/
  | appear (id pid : ℕ)
  /-- `new_child`: the flags `CLONE_PARENT` and `CLONE_THREAD`, whether the parent's ptracer is
  to trace the child, and whether the child has stopped already. -/
  | newChild (i id pid : ℕ) (cloneParent cloneThread traced stopped faults : Bool)
  | event (i : ℕ) (e : PtraceeEvent) (faults : Bool)
  /-- A tracee that has ended is freed. -/
  | free (i : ℕ)
  deriving DecidableEq, Repr

namespace Process

/-- `attach_to_ptracer`, for the ptracee. -/
def joinPtracer (ptracer : ℕ) (t : Process) : Process :=
  { t.clearPtracee with ptracer := some ptracer }

/-- `as_ptracer.waits_in` is set. -/
def waitIn (w : WaitsIn) (t : Process) : Process := { t with waitsIn := w }

/-- The tracee waits for a ptracee. -/
def waitFor (pid : ℤ) (options : ℕ) (t : Process) : Process :=
  { t with waitPid := pid, waitOptions := options }

/-- One zombie is collected. -/
def buryZombie (z : Zombie) (t : Process) : Process := { t with zombies := t.zombies.erase z }

/-- The event has been told to the ptracer. -/
def told (t : Process) : Process := { t with ptracerEvent := none }

/-- An event is put off, for PRoot and for the ptracer. -/
def putOff (proot : Option EventKind) (t : Process) : Process := { t with prootEvent := proot }

/-- An event that the ptracer has to be told. -/
def tell (kind : EventKind) (t : Process) : Process := { t with ptracerEvent := some kind }

/-- Events are told from now on. -/
def startTracing (t : Process) : Process := { t with tracingStarted := true }

/-- The tracee has stopped. -/
def stop (t : Process) : Process := { t with running := false }

/-- What `new_child` sets in the child. -/
def adopt (parent : Option ℕ) (clone : Bool) (t : Process) : Process :=
  { t with parent := parent, clone := clone }

end Process

/-- `new_tracee`. -/
def newTracee (id pid : ℕ) : Process :=
  ⟨id, pid, none, false, false, false, false, 0, [], 0, 0, .doesntWait, none, none, none, false⟩

namespace Population

/-- `attach_to_ptracer`. -/
def attachToPtracer (s : Population) (ptracee : Process) (ptracer : ℕ) : Population :=
  let s := s.modify ptracee.id (Process.joinPtracer ptracer)
  match s.get? ptracer with
  | none => { s with faulted := true }
  | some _ => s.modify ptracer Process.gainPtracee

/-- `get_stopped_ptracee`. -/
def getStoppedPtracee (s : Population) (p : Process) (pid : ℤ) (pend : Bool) (options : ℕ) :
    Option Waited :=
  match p.zombies.find? fun z =>
    decide (pid = -1 ∨ pid = z.pid) && expectedWaitClone options z.clone with
  | some z => some (.zombie z)
  | none =>
    (s.tracees.find? fun t => decide (t.ptracer = some p.id) && decide (pid = -1 ∨ pid = t.pid) &&
      expectedWaitClone options t.clone && !t.running &&
        (t.ptracerEvent.isSome || !pend)).map .tracee

/-- `update_wait_status`. -/
def updateWaitStatus (s : Population) (p : ℕ) (faults : Bool) : Waited → Population
  | .zombie z =>
    if z.parent = some p ∨ faults = false then
      (s.dropPtracee p).modify p (Process.buryZombie z)
    else s
  | .tracee t =>
    if t.parent = some p ∧ t.ptracerEvent = some .ends then s.detachFromPtracer t
    else if faults then s
    else s.modify t.id Process.told

/-- The end of `handle_ptracee_event`: the ptracer is told, and woken if it waits for this. -/
def report (s : Population) (id : ℕ) (kind : EventKind) (faults : Bool) : Population × Bool :=
  let s := s.modify id (Process.tell kind)
  match s.get? id with
  | none => (s, false)
  | some t =>
    match t.ptracer with
    | none => ({ s with faulted := true }, false)
    | some ptracer =>
      match s.get? ptracer with
      | none => ({ s with faulted := true }, false)
      | some p =>
        if (p.waitPid = -1 ∨ p.waitPid = t.pid) ∧
            expectedWaitClone p.waitOptions t.clone = true then
          ((s.updateWaitStatus ptracer faults (.tracee t)).modify ptracer Process.wake,
            !p.terminated && decide (kind = .stops))
        else (s, decide (kind = .stops))

/-- `handle_ptracee_event`, with whether the ptracee is kept stopped. -/
def handlePtraceeEvent (s : Population) (t : Process) (faults : Bool) :
    PtraceeEvent → Population × Bool
  | .syscall ignored exit =>
    let s := s.modify t.id (Process.putOff (some .stops))
    if ignored || !t.tracingStarted then (s, false)
    else if exit then (s.modify t.id Process.handled).report t.id .stops faults
    else s.report t.id .stops faults
  | .special wanted =>
    let s := s.modify t.id (Process.putOff (some .stops))
    if wanted then
      ((s.modify t.id Process.startTracing).modify t.id Process.handled).report t.id .stops faults
    else (s, false)
  | .seccomp => (s.modify t.id (Process.putOff (some .stops)), false)
  | .sigsys suppressed =>
    let s := s.modify t.id (Process.putOff (some .stops))
    if t.tracingStarted then
      let s := s.modify t.id Process.handled
      if suppressed then (s.modify t.id Process.restart, true) else s.report t.id .stops faults
    else (s, false)
  | .signal =>
    let s := s.modify t.id (Process.putOff (some .stops))
    (s.modify t.id Process.startTracing).report t.id .stops faults
  | .ends =>
    let s := s.modify t.id (Process.putOff (some .ends))
    (s.modify t.id Process.startTracing).report t.id .ends faults

/-- `get_tracee`, for a tracee and a pid. -/
def getTracee (s : Population) (cur : Process) (pid : ℕ) : Option Process :=
  if cur.pid = pid then some cur else s.tracees.find? (·.pid == pid)

/-- A new tracee is put at the head of the list. -/
def insert (s : Population) (t : Process) : Population := { s with tracees := t :: s.tracees }

/-! ### Steps -/

/-- The tracee that makes a call: it has not ended, and PRoot does not keep it waiting. -/
def acting (s : Population) (i : ℕ) : Option Process :=
  (s.get? i).filter fun t => !t.terminated && t.waitPid == 0

/-- `PTRACE_TRACEME`.  A ptracer that waits in the kernel waits in PRoot from now on. -/
def traceme (s : Population) (t : Process) : Population :=
  if t.ptracer.isSome = true ∨ t.parent = some t.id then s
  else
    match t.parent with
    | none => { s with faulted := true }
    | some ptracer =>
      (s.attachToPtracer t ptracer).modify ptracer fun p =>
        if p.waitsIn = .inKernel then p.waitIn .inProot else p

/-- `PTRACE_ATTACH`. -/
def attach (s : Population) (p : Process) (pid : ℕ) : Population :=
  match s.getTracee p pid with
  | none => s
  | some t => if t.ptracer.isSome = true ∨ t.id = p.id then s else s.attachToPtracer t p.id

/-- `PTRACE_DETACH` and the requests that restart a stopped ptracee, with `__WALL`. -/
def request (s : Population) (p : Process) (pid : ℤ) (detach : Bool) : Population :=
  match s.getStoppedPtracee p pid false (2 ^ 30) with
  | none | some (.zombie _) => s
  | some (.tracee t) =>
    if pid = -1 then s
    else
      let s := if detach then s.detachFromPtracer t else s
      let s :=
        match t.prootEvent with
        | some event => s.handleTraceeEvent t event
        | none => s
      s.modify t.id Process.restart

/-- `translate_wait_enter`. -/
def waitEnter (s : Population) (p : Process) (pid : ℤ) : Population :=
  let s := s.modify p.id (Process.waitIn .inKernel)
  if p.nbPtracees = 0 then s
  else if pid = -1 then s.modify p.id (Process.waitIn .inProot)
  else
    match s.tracees.find? fun t => decide (pid = t.pid) with
    | none => s
    | some t => if t.ptracer = some p.id then s.modify p.id (Process.waitIn .inProot) else s

/-- `translate_wait_exit`. -/
def waitExit (s : Population) (p : Process) (pid : ℤ) (options : ℕ) (faults : Bool) : Population :=
  if p.waitsIn = .inProot then
    let s := s.modify p.id (Process.waitIn .doesntWait)
    match s.getStoppedPtracee p pid true options with
    | some found => s.updateWaitStatus p.id faults found
    | none =>
      if p.nbPtracees = 0 ∨ wnohang options = true then s
      else s.modify p.id (Process.waitFor pid options)
  else s

/-- A tracee for a pid, when none has it. -/
def getOrCreate (s : Population) (id pid : ℕ) : Population :=
  if id ∈ s.ids ∨ pid ∈ s.tracees.map (·.pid) then s else s.insert (newTracee id pid)

/-- The end of `new_child`: the stop that the child has already made is handled. -/
def handleSigstop (s : Population) (child : ℕ) (faults : Bool) : Population :=
  match s.get? child with
  | none => s
  | some c =>
    if c.ptracer.isSome then
      let (s, keep) := s.handlePtraceeEvent c faults .signal
      let s := s.modify child (Process.putOff none)
      if keep then s else s.modify child Process.restart
    else s.modify child Process.restart

/-- `new_child`, for a child in the list.  The kernel does not give it the pid of its ptracer. -/
def newChild (s : Population) (p c : Process)
    (cloneParent cloneThread traced stopped faults : Bool) : Population :=
  if p.ptracer = some c.id then s
  else
    let s := s.modify c.id (Process.adopt (if cloneParent then p.parent else some p.id) cloneThread)
    let s :=
      match p.ptracer with
      | some ptracer => if traced then s.attachToPtracer c ptracer else s
      | none => s
    if stopped then s.handleSigstop c.id faults else s

/-- An event of a tracee, in `event_loop`. -/
def event (s : Population) (t : Process) (e : PtraceeEvent) (faults : Bool) : Population :=
  let s := s.modify t.id Process.stop
  let finish (s : Population) := (s.handleTraceeEvent t e.kind).modify t.id Process.restart
  if t.ptracer.isSome then
    let (s, keep) := s.handlePtraceeEvent t faults e
    if keep then s else finish s
  else finish s

/-- What happens, to tracees that may be there or not. -/
def stepOf (s : Population) : PtraceOp → Population
  | .traceme i => match s.acting i with | none => s | some t => s.traceme t
  | .attach i pid => match s.acting i with | none => s | some p => s.attach p pid
  | .request i pid detach => match s.acting i with | none => s | some p => s.request p pid detach
  | .waitEnter i pid => match s.acting i with | none => s | some p => s.waitEnter p pid
  | .waitExit i pid options faults =>
    match s.acting i with | none => s | some p => s.waitExit p pid options faults
  | .appear id pid => s.getOrCreate id pid
  | .newChild i id pid cloneParent cloneThread traced stopped faults =>
    match s.acting i with
    | none => s
    | some p =>
      let s := s.getOrCreate id pid
      match s.getTracee p pid with
      | none => s
      | some c => s.newChild p c cloneParent cloneThread traced stopped faults
  | .event i e faults =>
    match s.get? i with
    | none => s
    | some t =>
      if t.terminated = true ∨ (t.waitPid ≠ 0 ∧ e ≠ .ends) then s else s.event t e faults
  | .free i =>
    match s.get? i with
    | none => s
    | some t => if t.terminated then s.freeTracee i else s

/-- One step, with the tracees that it wakes with `ECHILD`. -/
def step (s : Population) (op : PtraceOp) : Population := { s with echild := [] }.stepOf op

end Population

/-- The operations in which a ptracer may be told an event. -/
def PtraceOp.reports : PtraceOp → Bool
  | .event _ _ _ | .newChild _ _ _ _ _ _ _ _ => true
  | _ => false

namespace Population

/-! ### The books -/

/-- The ptracees of a tracee that have not ended. -/
def ptracees (s : Population) (x : ℕ) : ℕ := s.tracees.countP fun t => decide (t.ptracer = some x)

/-- Each counter is by its debt above the number of ptracees and zombies. -/
def Balanced (s : Population) (d : ℕ → ℤ) : Prop :=
  ∀ p ∈ s.tracees, (p.nbPtracees : ℤ) = s.ptracees p.id + p.zombies.length + d p.id

/-- The books with debts: pointers to ptracers lead to other tracees, and nothing has faulted. -/
structure Ledger (s : Population) (d : ℕ → ℤ) : Prop where
  ids : s.ids.Nodup
  balanced : s.Balanced d
  closed : ∀ t ∈ s.tracees, ∀ x, t.ptracer = some x → x ∈ s.ids ∧ x ≠ t.id
  unfaulted : s.faulted = false

/-- No tracee waits for a ptracee when it has none. -/
def Waiting (s : Population) : Prop := ∀ p ∈ s.tracees, p.waitPid ≠ 0 → 0 < p.nbPtracees

/-- The books are right. -/
structure Sound (s : Population) : Prop where
  ledger : s.Ledger fun _ => 0
  waiting : s.Waiting

/-- In a step, a tracee that waits in PRoot goes on with `ECHILD` exactly when it has no ptracees
left; but when it is told an event, that is what it goes on with. -/
def Woken (s : Population) (op : PtraceOp) (s' : Population) : Prop :=
  ∀ i, ∀ p ∈ s.get? i, ∀ p' ∈ s'.get? i, p.waitPid ≠ 0 →
    if op.reports then i ∉ s'.echild ∧ (s'.ptracees i + p'.zombies.length = 0 → p'.waitPid = 0)
    else i ∈ s'.echild ↔ s'.ptracees i + p'.zombies.length = 0

/-- A step after which the books are right, and in which the tracees wake that should. -/
def Right (s : Population) (op : PtraceOp) : Prop := (s.step op).Sound ∧ s.Woken op (s.step op)

/-- The ptracees that `free_terminated_tracees` detaches before the tracee is freed. -/
def detached (s : Population) (i : ℕ) : List Process :=
  batch (fun e => decide (e.ptracer = some i)) 256 s.tracees

/-- No ptracee of the tracee is left out by the two walks over them: that of
`free_terminated_tracees`, and that of `remove_tracee`, which children count in as well. -/
def LeftNone (s : Population) (i : ℕ) : Prop :=
  ∀ e ∈ s.others i, e.ptracer = some i →
    e ∈ s.detached i ∨ e ∈ batch
      (fun u => decide (u.parent = some i ∨ u.ptracer = some i ∧ u ∉ s.detached i)) 256 (s.others i)

/-- The operations that keep the books: `PTRACE_TRACEME` is made by a tracee with a parent; a child
that is traced from the start has not been attached already; and no ptracee of a tracee that is
freed is left out by the two walks over them. -/
def Allowed (s : Population) : PtraceOp → Prop
  | .traceme i => ∀ t ∈ s.acting i, t.ptracer = none → ∃ x ∈ s.ids, t.parent = some x
  | .newChild i _ pid _ _ traced _ _ => ∀ p ∈ s.acting i, ∀ c ∈ s.getTracee p pid,
    p.ptracer.isSome = true → p.ptracer ≠ some c.id → traced = true → c.ptracer = none
  | .free i => ∀ t ∈ s.get? i, t.terminated = true → s.LeftNone i
  | _ => True

end Population

end NeoProot.Ptrace
