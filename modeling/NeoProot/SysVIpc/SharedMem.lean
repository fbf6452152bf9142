import NeoProot.SysVIpc.Wait
import Mathlib.Data.List.Count

/-!
# Shared memory segments

The memory of a segment belongs to a helper process, which passes its descriptor
through a socket to every tracee that attaches the segment.  `shmat` is a chain of
calls that the tracer lets the tracee make: `socket`, `connect`, `recvmsg`, `mmap`
and two `close`.  What is attached is recorded in a list of mappings, and a
segment marked for removal goes with its last mapping.

## Main definitions

* `shmatStage` — what the tracer does at the end of one call of the chain.
* `ShmWorld` — segments, mappings and tracees.
* `ShmWorld.step` — a call, a stop, a fork, an `execve` or an exit of a tracee.
-/

namespace NeoProot.SysVIpc

def SYSVIPC_MAX_SHM_SIZE : ℕ := 100 * 4096

/-- The fields of `struct SysVIpcSharedMem` of its own; `mappings` tells whether the head of its
list of mappings was allocated. -/
structure SharedMemContent where
  rmidPending : Bool
  fd : ℤ
  shmSegsz : ℕ
  shmNattch : ℕ
  mappings : Bool
  deriving DecidableEq, Repr

/-- A zeroed segment. -/
def SharedMemContent.zeroed : SharedMemContent := ⟨false, 0, 0, 0, false⟩

abbrev SysVIpcSharedMem := IpcObject SharedMemContent

/-- `struct SysVIpcSharedMemMap`, with the process whose list it is in.  The lists of the
segments and of the processes are the parts of one list, newest first. -/
structure SysVIpcSharedMemMap where
  process : ℕ
  shmIndex : ℕ
  addr : UInt64
  size : UInt64
  deriving DecidableEq, Repr

/-! ### The chain of a `shmat` -/

/-- The tracee is between the `socket` and the `mmap` of a `shmat`. -/
def InChain (c : IpcTracee) : Prop :=
  c.chainState = .shmatSocket ∨ c.chainState = .shmatConnect ∨ c.chainState = .shmatRecvmsg ∨
    c.chainState = .shmatMmap

instance (c : IpcTracee) : Decidable (InChain c) := inferInstanceAs (Decidable (_ ∨ _))

/-- The test of `sysvipc_shmat` on another tracee: its stage is past `CSTATE_SHMAT_SOCKET`. -/
def PastSocket (c : IpcTracee) : Prop :=
  c.chainState = .shmatConnect ∨ c.chainState = .shmatRecvmsg ∨ c.chainState = .shmatMmap

instance (c : IpcTracee) : Decidable (PastSocket c) := inferInstanceAs (Decidable (_ ∨ _))

/-- What a `shmat` stores in the configuration of its tracee: it waits for the helper, or
creates its socket. -/
def shmatOwn (idx : ℕ) (busy : Bool) (c : IpcTracee) : IpcTracee :=
  if busy then { c with waitingObjectIndex := idx, waitReason := .waitShmatHelperBusy }
  else { c with waitingObjectIndex := idx, chainState := .shmatSocket }

/-- `sysvipc_shm_wake_pending_shmat`: the first tracee that waits for the helper. -/
def wakePendingShmat : List IpcTracee → List IpcTracee
  | [] => []
  | c :: cs =>
    if c.waitReason = .waitShmatHelperBusy then
      { wakeTracee 0 c with chainState := .shmatSocket } :: cs
    else c :: wakePendingShmat cs

/-- What the tracer reads at the end of a call of the chain: two registers, whether the memory
of the tracee or the helper cannot be reached, and the descriptor in the control message. -/
structure ShmatStop where
  result : UInt64
  sysarg2 : UInt64
  memoryFails : Bool
  helperFails : Bool
  cmsgFd : Option ℕ
  deriving DecidableEq, Repr

/-- How the chain goes on. -/
inductive StageResult
  | next (c : IpcTracee)
  | attached
  | failed
  deriving DecidableEq, Repr

/-- The cases of `sysvipc_shmat_chain`. -/
def shmatStage (c : IpcTracee) (s : ShmatStop) : StageResult :=
  match c.chainState with
  | .shmatSocket =>
    if asInt s.result < 0 ∨ s.memoryFails then .failed
    else .next { c with shmatSocketFd := asInt s.result, chainState := .shmatConnect }
  | .shmatConnect =>
    if asInt s.result ≠ 0 ∨ s.memoryFails ∨ s.helperFails then .failed
    else .next { c with chainState := .shmatRecvmsg }
  | .shmatRecvmsg =>
    if s.memoryFails then .failed
    else match s.cmsgFd with
      | none => .failed
      | some fd =>
        if 0xFFFF < fd then .failed
        else .next { c with shmatMemFd := fd, chainState := .shmatMmap }
  | .shmatMmap => if s.result = -1 then .failed else .attached
  | _ => .next c

/-! ### Segments and mappings -/

/-- The segments, mappings and tracees of a namespace; `crashed` once the tracer has followed a
null pointer, failed an assertion or run into `__builtin_unreachable`. -/
structure ShmWorld where
  shms : List SysVIpcSharedMem
  maps : List SysVIpcSharedMemMap
  tracees : List IpcTracee
  crashed : Bool
  deriving DecidableEq, Repr

/-- The number of mappings of a segment. -/
def attachedTo (idx : ℕ) (maps : List SysVIpcSharedMemMap) : ℕ :=
  maps.countP (·.shmIndex = idx)

/-- `sysvipc_shm_update_stats`, for a segment with so many mappings. -/
def updateStats (n : ℕ) (s : SharedMemContent) : SharedMemContent :=
  if s.mappings then { s with shmNattch := n } else s

/-- `sysvipc_do_rmid`. -/
def doRmid (o : SysVIpcSharedMem) : SysVIpcSharedMem :=
  IpcObject.removed { o.content with rmidPending := false, fd := -1, mappings := false } o

/-- The end of `sysvipc_shm_memmap_destructor`: the last mapping of a segment marked for
removal is gone. -/
def settle (w : ShmWorld) (idx : ℕ) : ShmWorld :=
  match w.shms[idx]? with
  | none => w
  | some o =>
    if o.content.rmidPending ∧ attachedTo idx w.maps = 0 then
      { w with shms := w.shms.modify idx doRmid }
    else w

/-- `talloc_free` of a mapping. -/
def releaseMap (w : ShmWorld) (m : SysVIpcSharedMemMap) : ShmWorld :=
  settle { w with maps := w.maps.erase m } m.shmIndex

/-- `sysvipc_shm_remove_mappings_from_process`. -/
def removeMappings (w : ShmWorld) (process : ℕ) : ShmWorld :=
  (w.maps.filter (·.process = process)).foldl releaseMap w

/-- `sysvipc_shm_inherit_process`; the list tells which of the copies find memory. -/
def inheritMaps (parent child : ℕ) :
    List Bool → List SysVIpcSharedMemMap → List SysVIpcSharedMemMap
  | _, [] => []
  | copied, m :: ms =>
    if m.process = parent then
      if copied.headD true then
        m :: { m with process := child } :: inheritMaps parent child copied.tail ms
      else m :: inheritMaps parent child copied.tail ms
    else m :: inheritMaps parent child copied ms

/-- The arguments of `shmget`, the descriptor that the helper answers, and whether the tracer
gets the memory it asks for. -/
structure ShmgetArgs where
  key : UInt64
  size : UInt64
  flg : UInt64
  grows : Bool
  helperFd : ℤ
  allocates : Bool
  deriving DecidableEq, Repr

/-- `sysvipc_shmget`: the segments, and the slot whose id is the answer. -/
def shmget (objects : List SysVIpcSharedMem) (a : ShmgetArgs) :
    List SysVIpcSharedMem × Except ℤ ℕ :=
  match findExisting objects a.key with
  | some i =>
    if HasFlag a.flg IPC_CREAT ∧ HasFlag a.flg IPC_EXCL then (objects, .error EEXIST)
    else match objects[i]? with
      | none => (objects, .error EINVAL)
      | some o =>
        if a.size ≠ 0 ∧ a.size.toNat ≠ o.content.shmSegsz then (objects, .error EINVAL)
        else (objects, .ok i)
  | none =>
    if ¬ HasFlag a.flg IPC_CREAT then (objects, .error ENOENT)
    else if SYSVIPC_MAX_SHM_SIZE < a.size.toNat then (objects, .error EINVAL)
    else if findUnused objects = none ∧ ¬ a.grows then (objects, .error ENOMEM)
    else
      let shm : SysVIpcSharedMem := .zeroed { SharedMemContent.zeroed with fd := a.helperFd }
      if a.helperFd < 0 then (place objects shm, .error ENOSPC)
      else
        -- the object is valid before its list of mappings is allocated
        let made :=
          { shm with
            key := asInt a.key
            valid := true
            content :=
              { shm.content with shmSegsz := a.size.toNat, mappings := a.allocates } }
        (place objects made, if a.allocates then .ok (claimIndex objects) else .error ENOMEM)

/-- The arguments of `shmctl`, and the status of the write to the memory of the tracee. -/
structure ShmctlArgs where
  shmid : BitVec 32
  cmd : UInt32
  written : ℤ
  deriving DecidableEq, Repr

/-- The shared memory calls; `allocates` tells whether there is memory for a mapping. -/
inductive ShmCall
  | shmget (args : ShmgetArgs)
  | shmat (shmid : BitVec 32) (allocates : Bool)
  | shmdt (addr : UInt64)
  | shmctl (args : ShmctlArgs)
  deriving DecidableEq, Repr

namespace ShmWorld

/-- `sysvipc_shmat`. -/
def shmat (w : ShmWorld) (c : IpcTracee) (shmid : BitVec 32) (allocates : Bool) :
    ShmWorld × ℤ :=
  match lookupIpcObject w.shms shmid with
  | none => (w, -EINVAL)
  | some idx =>
    if ¬ allocates then (w, -ENOMEM)
    else match w.shms[idx]? with
      | none => (w, -EINVAL)
      | some o =>
        if o.content.mappings = false then ({ w with crashed := true }, 0)
        else
          let busy : Bool := ∃ d ∈ w.tracees, PastSocket d
          ({ w with
             maps := ⟨c.process, idx, 0, 0⟩ :: w.maps
             tracees := updateTracee c.pid (shmatOwn idx busy) w.tracees }, 0)

/-- `sysvipc_shmdt`; the `munmap` that follows is the only call of its chain. -/
def shmdt (w : ShmWorld) (c : IpcTracee) (addr : UInt64) : ShmWorld × ℤ :=
  match w.maps.find? fun m => m.process = c.process ∧ m.addr = addr with
  | none => (w, -EINVAL)
  | some m =>
    ({ releaseMap w m with
       tracees := updateTracee c.pid (fun c => { c with chainState := .single }) w.tracees }, 0)

/-- `sysvipc_shmctl`. -/
def shmctl (w : ShmWorld) (a : ShmctlArgs) : ShmWorld × ℤ :=
  match lookupIpcObject w.shms a.shmid with
  | none => (w, -EINVAL)
  | some idx =>
    match w.shms[idx]? with
    | none => (w, -EINVAL)
    | some o =>
      if a.cmd = IPC_RMID ∨ a.cmd = SYSVIPC_IPC_64 then
        if o.content.mappings = false then ({ w with crashed := true }, 0)
        else if attachedTo idx w.maps = 0 then
          ({ w with shms := w.shms.modify idx doRmid }, 0)
        else
          ({ w with
             shms := modifyContent w.shms idx fun s => { s with rmidPending := true } }, 0)
      else if a.cmd = IPC_STAT then
        ({ w with
           shms := modifyContent w.shms idx (updateStats (attachedTo idx w.maps)) },
          a.written)
      else (w, -EINVAL)

/-- The handler of one call. -/
def handle (w : ShmWorld) (c : IpcTracee) : ShmCall → ShmWorld × ℤ
  | .shmget a =>
    let got := SysVIpc.shmget w.shms a
    ({ w with shms := got.1 },
      match got.2 with
      | .ok i => (ipcObjectId i ((got.1[i]?.map (·.generation)).getD 0)).toInt
      | .error errno => -errno)
  | .shmat shmid allocates => w.shmat c shmid allocates
  | .shmdt addr => w.shmdt c addr
  | .shmctl a => w.shmctl a

/-- `sysvipc_shm_find_pending_mapping`. -/
def pendingMap (w : ShmWorld) (c : IpcTracee) : Option SysVIpcSharedMemMap :=
  w.maps.find? fun m =>
    m.process = c.process ∧ m.size = 0 ∧ m.shmIndex = c.waitingObjectIndex

/-- The chain of a tracee ends, and a tracee that waits for the helper is woken. -/
def leaveChain (pid : ℕ) (tracees : List IpcTracee) : List IpcTracee :=
  wakePendingShmat (updateTracee pid (fun c => { c with chainState := .notChained }) tracees)

/-- `sysvipc_shmat_chain`. -/
def shmatChain (w : ShmWorld) (c : IpcTracee) (s : ShmatStop) : ShmWorld :=
  match w.shms[c.waitingObjectIndex]? with
  | none => { w with crashed := true }
  | some o =>
    if o.valid = false then { w with crashed := true }
    else match shmatStage c s with
      | .next c' => { w with tracees := updateTracee c.pid (fun _ => c') w.tracees }
      | .attached =>
        match w.pendingMap c with
        | none => { w with crashed := true }
        | some m =>
          { w with
            maps := w.maps.replace m { m with addr := s.result, size := s.sysarg2 }
            tracees := leaveChain c.pid w.tracees }
      | .failed =>
        match w.pendingMap c with
        | none => { w with crashed := true }
        | some m => { releaseMap w m with tracees := leaveChain c.pid w.tracees }

end ShmWorld

/-- What happens to the tracees of a namespace.  An `execve` is the point at which the tracer
lets the kernel execute it; whether the kernel does is not known to the tracer. -/
inductive ShmEvent
  | call (pid : ℕ) (fromSigsys : Bool) (c : ShmCall)
  | enter (pid : ℕ)
  | leave (pid : ℕ) (s : ShmatStop)
  | clone (parent child : ℕ) (thread : Bool) (copied : List Bool)
  | execve (pid : ℕ) (succeeds : Bool)
  | exit (pid : ℕ)
  deriving DecidableEq, Repr

namespace ShmWorld

/-- The tracee that makes a call; a tracee makes no call of its own inside a chain. -/
def caller (w : ShmWorld) (pid : ℕ) : Option IpcTracee :=
  w.tracees.find? fun c =>
    c.pid = pid ∧ c.waitState = .notWaiting ∧ c.chainState = .notChained

/-- An enter stop of a tracee that waits for the helper, or was woken before its `ppoll`:
`SYSCALL_ENTER_START` or `SYSCALL_CHAINED_ENTER`. -/
def enterStop (c : IpcTracee) : IpcTracee :=
  match c.waitState with
  | .restartedIntoPpoll => { c with waitState := .enteredPpoll }
  | .restartedIntoPpollCanceled => { c with waitState := .signaledPpoll }
  | _ => c

/-- The mappings of a process go with its last tracee. -/
def endProcess (w : ShmWorld) (process : ℕ) : ShmWorld :=
  if ∃ c ∈ w.tracees, c.process = process then w else removeMappings w process

/-- One event; nothing happens after the tracer has crashed. -/
def step (w : ShmWorld) (e : ShmEvent) : ShmWorld :=
  if w.crashed then w
  else match e with
    | .call pid fromSigsys call =>
      match w.caller pid with
      | none => w
      | some c =>
        let r := w.handle c call
        { r.1 with tracees := updateTracee pid (syscallTail fromSigsys r.2) r.1.tracees }
    | .enter pid => { w with tracees := updateTracee pid enterStop w.tracees }
    | .leave pid s =>
      match w.tracees.find? (·.pid = pid) with
      | none => w
      | some c =>
        -- `SYSCALL_EXIT_START` and `SYSCALL_CHAINED_EXIT`
        if c.waitState = .notWaiting then
          if InChain c then w.shmatChain c s else w
        else { w with tracees := updateTracee pid exitStart w.tracees }
    | .clone parent child thread copied =>
      match w.tracees.find? (·.pid = parent) with
      | none => w
      | some p =>
        if child ∈ w.tracees.map (·.pid) ∨ child ∈ w.tracees.map (·.process) then w
        else
          { w with
            maps := if thread then w.maps else inheritMaps p.process child copied w.maps
            tracees := cloneTracee parent child thread w.tracees }
    | .execve pid _ =>
      match w.caller pid with
      | none => w
      | some c => removeMappings w c.process
    | .exit pid =>
      match w.tracees.find? (·.pid = pid) with
      | none => w
      | some c => { w with tracees := dropTracee pid w.tracees }.endProcess c.process

/-- A namespace at its start: no object, and the first tracee. -/
def initial (pid : ℕ) : ShmWorld := ⟨[], [], [IpcTracee.fresh pid pid], false⟩

end ShmWorld

end NeoProot.SysVIpc
