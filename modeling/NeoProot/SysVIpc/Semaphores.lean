import NeoProot.SysVIpc.Wait
import Mathlib.Data.Int.Order.Basic

/-!
# Semaphore sets

The semaphore calls of the extension.  `semop` tries its operations on a copy of
the values, all or nothing, then goes once over the tracees that wait for the
set, in the order of the tracee list, and completes those whose operations have
become possible.

## Main definitions

* `semCheck` — the operations of one tracee, tried on the values of a set.
* `wakePass` — the pass of `semop` over the waiting tracees.
* `SemWorld.step` — a call, a stop, a fork or an exit of a tracee.
-/

namespace NeoProot.SysVIpc

def SYSVIPC_MAX_SEMS : ℕ := 512
def SYSVIPC_MAX_NSEMS : ℕ := 512
def SYSVIPC_MAX_NSOPS : ℕ := 512
def SYSVIPC_MAX_SEMVAL : ℕ := 0x7000

def SYSVIPC_GETVAL : UInt32 := 12
def SYSVIPC_GETALL : UInt32 := 13
def SYSVIPC_SETVAL : UInt32 := 16
def SYSVIPC_SEM_INFO : UInt32 := 19

/-- `struct SysVIpcSemaphore`; `nsems` is the length of its array of values. -/
abbrev SysVIpcSemaphore := IpcObject (List ℕ)

/-! ### The operations of one tracee -/

/-- What `sem_check` answers: 0 with the new values, 1, or a negated error number. -/
inductive CheckResult
  | done (vals : List ℕ)
  | wait
  | fail (errno : ℤ)
  deriving DecidableEq, Repr

/-- The loop of `sem_check`. -/
def checkOps : List SysVIpcSembuf → List ℕ → CheckResult
  | [], vals => .done vals
  | sop :: sops, vals =>
    match vals[sop.semNum]? with
    | none => .fail EFBIG
    | some val =>
      if sop.semOp = 0 then
        if val ≠ 0 then
          if HasFlag sop.semFlg IPC_NOWAIT then .fail EAGAIN else .wait
        else checkOps sops vals
      else
        let newVal : ℤ := val + sop.semOp
        if newVal < 0 then
          if HasFlag sop.semFlg IPC_NOWAIT then .fail EAGAIN else .wait
        else if (SYSVIPC_MAX_SEMVAL : ℤ) < newVal then .fail ERANGE
        else checkOps sops (vals.set sop.semNum newVal.toNat)

/-- `sem_check`. -/
def semCheck (sops : List SysVIpcSembuf) (vals : List ℕ) : CheckResult :=
  if SYSVIPC_MAX_NSEMS < vals.length then .fail EFBIG else checkOps sops vals

namespace CheckResult

/-- The values that `sem_check` leaves in the set. -/
def values (old : List ℕ) : CheckResult → List ℕ
  | done vals => vals
  | wait | fail _ => old

/-- The status of the call. -/
def status : CheckResult → ℤ
  | done _ => 0
  | wait => 1
  | fail errno => -errno

end CheckResult

/-! ### `semget` -/

/-- The arguments of `semget`, and whether the tracer gets the memory it asks for. -/
structure SemgetArgs where
  key : UInt64
  nsems : ℤ
  flg : UInt64
  grows : Bool
  allocates : Bool
  deriving DecidableEq, Repr

/-- `sysvipc_semget`: the sets, and the slot whose id is the answer. -/
def semget (objects : List SysVIpcSemaphore) (a : SemgetArgs) :
    List SysVIpcSemaphore × Except ℤ ℕ :=
  if a.nsems ≤ 0 ∨ (SYSVIPC_MAX_NSEMS : ℤ) < a.nsems then (objects, .error EINVAL)
  else match findExisting objects a.key with
    | some i =>
      if HasFlag a.flg IPC_CREAT ∧ HasFlag a.flg IPC_EXCL then (objects, .error EEXIST)
      else match objects[i]? with
        | none => (objects, .error EINVAL)
        | some o =>
          if (o.content.length : ℤ) < a.nsems then (objects, .error EINVAL) else (objects, .ok i)
    | none =>
      if ¬ HasFlag a.flg IPC_CREAT then (objects, .error ENOENT)
      else if findUnused objects = none ∧ SYSVIPC_MAX_SEMS ≤ objects.length then
        (objects, .error ENOSPC)
      else if findUnused objects = none ∧ ¬ a.grows then (objects, .error ENOMEM)
      else
        let sem := { IpcObject.zeroed [] with key := asInt a.key }
        if ¬ a.allocates then (place objects sem, .error ENOMEM)
        else
          (place objects { sem with valid := true, content := List.replicate a.nsems.toNat 0 },
            .ok (claimIndex objects))

/-! ### `semop` -/

/-- The arguments of `semop` with the operations that they point to, whether there is memory
for them, and the status when they cannot be read. -/
structure SemopArgs where
  semid : BitVec 32
  sops : List SysVIpcSembuf
  allocates : Bool
  unreadable : Option ℤ
  deriving DecidableEq, Repr

/-- The checks of `sysvipc_semop` before it tries the operations: the set and its values. -/
def semopTarget (objects : List SysVIpcSemaphore) (a : SemopArgs) : Except ℤ (ℕ × List ℕ) :=
  match lookupIpcObject objects a.semid with
  | none => .error EINVAL
  | some idx =>
    if a.sops.length = 0 ∨ SYSVIPC_MAX_NSOPS < a.sops.length then .error EINVAL
    else if ¬ a.allocates then .error ENOMEM
    else match a.unreadable with
      | some errno => .error errno
      | none =>
        match objects[idx]? with
        | none => .error EINVAL
        | some o =>
          if ∃ sop ∈ a.sops, o.content.length ≤ sop.semNum then .error EFBIG
          else .ok (idx, o.content)

/-- The tracee waits for the set. -/
def WaitsOn (idx : ℕ) (c : IpcTracee) : Prop :=
  c.waitReason = .waitSemop ∧ c.waitingObjectIndex = idx

instance (idx : ℕ) (c : IpcTracee) : Decidable (WaitsOn idx c) :=
  inferInstanceAs (Decidable (_ ∧ _))

/-- The pass over the other tracees: the values it leaves, and the tracees, woken or not. -/
def wakePass (self idx : ℕ) : List ℕ → List IpcTracee → List ℕ × List IpcTracee
  | vals, [] => (vals, [])
  | vals, c :: cs =>
    if c.pid ≠ self ∧ WaitsOn idx c then
      match semCheck c.semopSops vals with
      | .wait =>
        let rest := wakePass self idx vals cs
        (rest.1, c :: rest.2)
      | result =>
        let rest := wakePass self idx (result.values vals) cs
        (rest.1, wakeTracee result.status { c with semopSops := [] } :: rest.2)
    else
      let rest := wakePass self idx vals cs
      (rest.1, c :: rest.2)

/-- The sets and the tracees of a namespace. -/
structure SemWorld where
  semaphores : List SysVIpcSemaphore
  tracees : List IpcTracee
  deriving DecidableEq, Repr

/-- Write the values of a set. -/
def setValues (objects : List SysVIpcSemaphore) (idx : ℕ) (vals : List ℕ) :
    List SysVIpcSemaphore :=
  objects.modify idx fun o => { o with content := vals }

/-- What `sysvipc_semop` stores in the configuration of its own tracee. -/
def semopOwn (idx : ℕ) (sops : List SysVIpcSembuf) (result : CheckResult) (c : IpcTracee) :
    IpcTracee :=
  if result = .wait then
    { c with waitReason := .waitSemop, waitingObjectIndex := idx, semopSops := sops }
  else { c with waitReason := .notWaiting, waitingObjectIndex := idx, semopSops := [] }

/-- `sysvipc_semop`. -/
def semop (w : SemWorld) (self : ℕ) (a : SemopArgs) : SemWorld × ℤ :=
  match semopTarget w.semaphores a with
  | .error errno => (w, -errno)
  | .ok (idx, vals) =>
    let own := semCheck a.sops vals
    let pass := wakePass self idx (own.values vals) w.tracees
    ({ semaphores := setValues w.semaphores idx pass.1
       tracees := updateTracee self (semopOwn idx a.sops own) pass.2 },
      if own = .wait then 0 else own.status)

/-! ### `semctl` -/

/-- The arguments of `semctl`, and the status of the write to the memory of the tracee. -/
structure SemctlArgs where
  semid : BitVec 32
  semNum : ℤ
  cmd : UInt32
  arg : UInt64
  written : ℤ
  deriving DecidableEq, Repr

/-- `sysvipc_semctl`. -/
def semctl (w : SemWorld) (a : SemctlArgs) : SemWorld × ℤ :=
  match lookupIpcObject w.semaphores a.semid with
  | none => (w, -EINVAL)
  | some idx =>
    match w.semaphores[idx]? with
    | none => (w, -EINVAL)
    | some o =>
      let cmd := a.cmd &&& ~~~SYSVIPC_IPC_64
      if cmd = SYSVIPC_GETVAL then
        if a.semNum < 0 ∨ (o.content.length : ℤ) ≤ a.semNum then (w, -EINVAL)
        else (w, (o.content.getD a.semNum.toNat 0 : ℕ))
      else if cmd = SYSVIPC_SETVAL then
        if a.semNum < 0 ∨ (o.content.length : ℤ) ≤ a.semNum then (w, -EINVAL)
        else if SYSVIPC_MAX_SEMVAL < a.arg.toNat then (w, -ERANGE)
        else
          ({ w with
             semaphores :=
              setValues w.semaphores idx (o.content.set a.semNum.toNat a.arg.toNat) }, 0)
      else if cmd = SYSVIPC_GETALL ∨ cmd = SYSVIPC_IPC_INFO ∨ cmd = SYSVIPC_SEM_INFO then
        (w, if a.written < 0 then a.written else 0)
      else if cmd = IPC_RMID then
        ({ semaphores := w.semaphores.modify idx (IpcObject.removed [])
           tracees := wakeRemoved .waitSemop idx w.tracees }, 0)
      else (w, -EINVAL)

/-! ### Runs -/

/-- The semaphore calls. -/
inductive SemCall
  | semget (args : SemgetArgs)
  | semop (args : SemopArgs)
  | semctl (args : SemctlArgs)
  deriving DecidableEq, Repr

/-- What happens to the tracees of a namespace. -/
inductive SemEvent
  | call (pid : ℕ) (fromSigsys : Bool) (c : SemCall)
  | enter (pid : ℕ)
  | leave (pid : ℕ)
  | clone (parent child : ℕ) (thread : Bool)
  | exit (pid : ℕ)
  deriving DecidableEq, Repr

/-- The handler of one call. -/
def SemWorld.handle (w : SemWorld) (self : ℕ) : SemCall → SemWorld × ℤ
  | .semget a =>
    let got := SysVIpc.semget w.semaphores a
    ({ w with semaphores := got.1 },
      match got.2 with
      | .ok i => (ipcObjectId i ((got.1[i]?.map (·.generation)).getD 0)).toInt
      | .error errno => -errno)
  | .semop a => SysVIpc.semop w self a
  | .semctl a => SysVIpc.semctl w a

/-- One event. -/
def SemWorld.step (w : SemWorld) : SemEvent → SemWorld
  | .call pid fromSigsys call =>
    match callerOf pid w.tracees with
    | none => w
    | some _ =>
      let r := w.handle pid call
      { r.1 with tracees := updateTracee pid (syscallTail fromSigsys r.2) r.1.tracees }
  | .enter pid => { w with tracees := updateTracee pid enterStart w.tracees }
  | .leave pid => { w with tracees := updateTracee pid exitStart w.tracees }
  | .clone parent child thread =>
    { w with tracees := cloneTracee parent child thread w.tracees }
  | .exit pid => { w with tracees := dropTracee pid w.tracees }

/-- A namespace at its start: no object, and the first tracee. -/
def SemWorld.initial (pid : ℕ) : SemWorld := ⟨[], [IpcTracee.fresh pid pid]⟩

end NeoProot.SysVIpc
