import NeoProot.SysVIpc.Wait

/-!
# Message queues

The message calls of the extension.  `msgsnd` wakes the first tracee that waits
for such a message and appends the message to the queue; the woken tracee takes
a message only when it runs again and retries its `msgrcv`.

## Main definitions

* `msgMatch`, `selectMsg` — the message that a `msgrcv` takes.
* `doMsgrcv` — one attempt to receive.
* `MsgWorld.step` — a call, a stop, a fork or an exit of a tracee.
* `MsgNote` — what an event did to the messages.
-/

namespace NeoProot.SysVIpc

def SYSVIPC_MAX_MSG_SIZE : ℕ := 0xFFFF

def MSG_NOERROR : UInt64 := 0x1000
def MSG_EXCEPT : UInt64 := 0x2000
def MSG_COPY : UInt64 := 0x4000

/-- `struct SysVIpcMsgQueueItem`; `mtext_length` is the length of the text. -/
structure SysVIpcMsgQueueItem where
  mtype : ℤ
  mtext : List UInt8
  deriving DecidableEq, Repr

/-- The messages of a queue, and their number and bytes in its `stats`. -/
structure MsgQueueContent where
  items : List SysVIpcMsgQueueItem
  msgQnum : ℕ
  msgCbytes : ℕ
  deriving DecidableEq, Repr

/-- A queue without messages. -/
def MsgQueueContent.empty : MsgQueueContent := ⟨[], 0, 0⟩

abbrev SysVIpcMsgQueue := IpcObject MsgQueueContent

/-! ### Receiving -/

/-- `msg_match`; the type of the message is converted to `int`, and the negation of the least
`int` gives that `int` again. -/
def msgMatch (senderType receiverFilter : ℤ) (receiverFlag : UInt64) : Bool :=
  let sender := senderType.bmod (2 ^ 32)
  let matched := receiverFilter = 0 ∨ sender = receiverFilter ∨
    (receiverFilter < 0 ∧ sender ≤ (-receiverFilter).bmod (2 ^ 32))
  if HasFlag receiverFlag MSG_EXCEPT then ¬ matched else matched

/-- The message is one that the receiver asks for. -/
def Wanted (a : MsgrcvArgs) (m : SysVIpcMsgQueueItem) : Bool :=
  msgMatch m.mtype a.msgtyp a.msgflg

/-- The position of the message that an attempt to receive is about. -/
def selectMsg (items : List SysVIpcMsgQueueItem) (a : MsgrcvArgs) : Option ℕ :=
  if HasFlag a.msgflg MSG_COPY then
    if 0 ≤ a.msgtyp ∧ a.msgtyp.toNat < items.length then some a.msgtyp.toNat else none
  else items.findIdx? (Wanted a)

/-- How an attempt to receive ends. -/
inductive Attempt
  | failed (errno : ℤ)
  | blocked
  | copied (length : ℕ)
  | taken (position : ℕ) (item : SysVIpcMsgQueueItem) (length : ℕ)
  deriving DecidableEq, Repr

/-- `do_msgrcv`; `unwritable` is the error of a write to the memory of the tracee. -/
def doMsgrcv (q : MsgQueueContent) (a : MsgrcvArgs) (unwritable : Option ℤ) : Attempt :=
  if a.msgflg &&& ~~~(IPC_NOWAIT ||| MSG_NOERROR ||| MSG_COPY ||| MSG_EXCEPT) ≠ 0 then
    .failed EINVAL
  else if HasFlag a.msgflg MSG_COPY ∧
      (¬ HasFlag a.msgflg IPC_NOWAIT ∨ HasFlag a.msgflg MSG_EXCEPT) then .failed EINVAL
  else match selectMsg q.items a with
    | none => if HasFlag a.msgflg IPC_NOWAIT then .failed ENOMSG else .blocked
    | some k =>
      match q.items[k]? with
      | none => .failed EINVAL
      | some m =>
        -- `msg_deliver`
        if a.msgsz < m.mtext.length ∧ ¬ HasFlag a.msgflg MSG_NOERROR then .failed E2BIG
        else match unwritable with
          | some errno => .failed errno
          | none =>
            if HasFlag a.msgflg MSG_COPY then .copied (min m.mtext.length a.msgsz)
            else .taken k m (min m.mtext.length a.msgsz)

/-- What an attempt leaves in the queue. -/
def MsgQueueContent.after (q : MsgQueueContent) : Attempt → MsgQueueContent
  | .taken k m _ =>
    { items := q.items.eraseIdx k
      msgQnum := q.msgQnum - 1
      msgCbytes := q.msgCbytes - m.mtext.length }
  | _ => q

/-- The status of the call. -/
def Attempt.status : Attempt → ℤ
  | failed errno => -errno
  | blocked => 0
  | copied length | taken _ _ length => length

/-! ### The namespace -/

/-- The queues and the tracees of a namespace; `aborted` once an assertion has failed. -/
structure MsgWorld where
  queues : List SysVIpcMsgQueue
  tracees : List IpcTracee
  aborted : Bool
  deriving DecidableEq, Repr

/-- What an event did to the messages: a queue was made, a message was sent (and a receiver
woken for it), a tracee blocked, a message was received, a retry was refused the message it
tried, a queue was removed, a tracee left. -/
inductive MsgNote
  | nothing
  | created (idx : ℕ)
  | sent (idx : ℕ) (item : SysVIpcMsgQueueItem) (woke : Option ℕ)
  | blocked (idx : ℕ)
  | received (idx position : ℕ) (item : SysVIpcMsgQueueItem)
  | refused (idx : ℕ) (args : MsgrcvArgs) (tried : Option SysVIpcMsgQueueItem)
    (unwritable : Option ℤ)
  | removed (idx : ℕ)
  | left
  deriving DecidableEq, Repr

/-- The arguments of `msgget`, and whether the tracer gets the memory it asks for. -/
structure MsggetArgs where
  key : UInt64
  flg : UInt64
  grows : Bool
  allocates : Bool
  deriving DecidableEq, Repr

/-- `sysvipc_msgget`: the queues, and the slot whose id is the answer. -/
def msgget (objects : List SysVIpcMsgQueue) (a : MsggetArgs) :
    List SysVIpcMsgQueue × Except ℤ ℕ :=
  match findExisting objects a.key with
  | some i =>
    if HasFlag a.flg IPC_CREAT ∧ HasFlag a.flg IPC_EXCL then (objects, .error EEXIST)
    else (objects, .ok i)
  | none =>
    if ¬ HasFlag a.flg IPC_CREAT then (objects, .error ENOENT)
    else if findUnused objects = none ∧ ¬ a.grows then (objects, .error ENOMEM)
    else
      let q := { IpcObject.zeroed .empty with key := asInt a.key }
      if ¬ a.allocates then (place objects q, .error ENOMEM)
      else (place objects { q with valid := true }, .ok (claimIndex objects))

/-- The arguments of `msgsnd` with the message that they point to, and what fails on the way
to it. -/
structure MsgsndArgs where
  msqid : BitVec 32
  item : SysVIpcMsgQueueItem
  unreadableType : Option ℤ
  allocates : Bool
  unreadableText : Option ℤ
  deriving DecidableEq, Repr

/-- The checks of `sysvipc_msgsnd`: the queue that the message goes to. -/
def msgsndTarget (objects : List SysVIpcMsgQueue) (a : MsgsndArgs) : Except ℤ ℕ :=
  match lookupIpcObject objects a.msqid with
  | none => .error EINVAL
  | some idx =>
    if a.item.mtext.length = 0 ∨ SYSVIPC_MAX_MSG_SIZE < a.item.mtext.length then .error EINVAL
    else match a.unreadableType with
      | some errno => .error errno
      | none =>
        if a.item.mtype < 1 then .error EINVAL
        else if ¬ a.allocates then .error ENOMEM
        else match a.unreadableText with
          | some errno => .error errno
          | none => .ok idx

/-- The tracee waits for a message like this one. -/
def WaitsFor (idx : ℕ) (m : SysVIpcMsgQueueItem) (c : IpcTracee) : Prop :=
  c.waitReason = .waitQueueRecv ∧ c.waitingObjectIndex = idx ∧ Wanted c.msgrcv m = true

instance (idx : ℕ) (m : SysVIpcMsgQueueItem) (c : IpcTracee) : Decidable (WaitsFor idx m c) :=
  inferInstanceAs (Decidable (_ ∧ _ ∧ _))

/-- A tracee is told to retry its `msgrcv`. -/
def scheduleRetry (c : IpcTracee) : IpcTracee :=
  wakeTracee (-EAGAIN) { c with chainState := .msgrcvRetry }

/-- The loop of `sysvipc_msgsnd` over the tracees: the first one that waits for the message is
told to retry. -/
def wakeFirst (idx : ℕ) (m : SysVIpcMsgQueueItem) :
    List IpcTracee → Option ℕ × List IpcTracee
  | [] => (none, [])
  | c :: cs =>
    if WaitsFor idx m c then (some c.pid, scheduleRetry c :: cs)
    else
      let rest := wakeFirst idx m cs
      (rest.1, c :: rest.2)

/-- Append a message to a queue. -/
def MsgQueueContent.append (q : MsgQueueContent) (m : SysVIpcMsgQueueItem) :
    MsgQueueContent where
  items := q.items ++ [m]
  msgQnum := q.msgQnum + 1
  msgCbytes := q.msgCbytes + m.mtext.length

/-- `sysvipc_msgsnd`. -/
def msgsnd (w : MsgWorld) (a : MsgsndArgs) : MsgWorld × ℤ × MsgNote :=
  match msgsndTarget w.queues a with
  | .error errno => (w, -errno, .nothing)
  | .ok idx =>
    let woken := wakeFirst idx a.item w.tracees
    ({ w with
       queues := modifyContent w.queues idx (·.append a.item)
       tracees := woken.2 }, 0, .sent idx a.item woken.1)

/-- What an attempt to receive tells about the messages. -/
def Attempt.note (idx : ℕ) : Attempt → MsgNote
  | failed _ | copied _ => .nothing
  | blocked => .blocked idx
  | taken k m _ => .received idx k m

/-- What a retry tells about the messages. -/
def retryNote (idx : ℕ) (items : List SysVIpcMsgQueueItem) (a : MsgrcvArgs)
    (unwritable : Option ℤ) : Attempt → MsgNote
  | .failed _ => .refused idx a (items.find? (Wanted a)) unwritable
  | .blocked => .nothing
  | result => result.note idx

/-- What `msgrcv` stores in the configuration of its tracee. -/
def msgrcvOwn (idx : ℕ) (a : MsgrcvArgs) (result : Attempt) (c : IpcTracee) : IpcTracee :=
  if result = .blocked then
    { c with msgrcv := a, waitReason := .waitQueueRecv, waitingObjectIndex := idx }
  else { c with msgrcv := a }

/-- `sysvipc_msgrcv`; the arguments are the registers of the call. -/
def msgrcv (w : MsgWorld) (self : ℕ) (msqid : BitVec 32) (msgp msgsz msgtyp msgflg : UInt64)
    (unwritable : Option ℤ) : MsgWorld × ℤ × MsgNote :=
  match lookupIpcObject w.queues msqid with
  | none => (w, -EINVAL, .nothing)
  | some idx =>
    match w.queues[idx]? with
    | none => (w, -EINVAL, .nothing)
    | some q =>
      let a : MsgrcvArgs :=
        ⟨msgp, (asWord (asInt msgsz)).toNat, asInt msgtyp, asWord (asInt msgflg)⟩
      let result := doMsgrcv q.content a unwritable
      ({ w with
         queues := modifyContent w.queues idx (·.after result)
         tracees := updateTracee self (msgrcvOwn idx a result) w.tracees },
        result.status, result.note idx)

/-- `sysvipc_msgrcv_retry`; its assertions abort the tracer.  An attempt that would block ends
the call with `EINTR`. -/
def msgrcvRetry (w : MsgWorld) (c : IpcTracee) (unwritable : Option ℤ) : MsgWorld × MsgNote :=
  if c.statusAfterWait = -EAGAIN then
    match w.queues[c.waitingObjectIndex]? with
    | none => ({ w with aborted := true }, .nothing)
    | some q =>
      if q.valid then
        let result := doMsgrcv q.content c.msgrcv unwritable
        ({ w with queues := modifyContent w.queues c.waitingObjectIndex (·.after result) },
          retryNote c.waitingObjectIndex q.content.items c.msgrcv unwritable result)
      else ({ w with aborted := true }, .nothing)
  else (w, .nothing)

/-- The arguments of `msgctl`, and the status of the write to the memory of the tracee. -/
structure MsgctlArgs where
  msqid : BitVec 32
  cmd : UInt32
  written : ℤ
  deriving DecidableEq, Repr

/-- `sysvipc_msgctl`. -/
def msgctl (w : MsgWorld) (a : MsgctlArgs) : MsgWorld × ℤ × MsgNote :=
  match lookupIpcObject w.queues a.msqid with
  | none => (w, -EINVAL, .nothing)
  | some idx =>
    let cmd := a.cmd &&& ~~~SYSVIPC_IPC_64
    if cmd = IPC_RMID then
      ({ w with
         queues := w.queues.modify idx (IpcObject.removed .empty)
         tracees := wakeRemoved .waitQueueRecv idx w.tracees }, 0, .removed idx)
    else if cmd = IPC_STAT then (w, if a.written < 0 then a.written else 0, .nothing)
    else (w, -EINVAL, .nothing)

/-! ### Events -/

/-- The message calls. -/
inductive MsgCall
  | msgget (args : MsggetArgs)
  | msgsnd (args : MsgsndArgs)
  | msgrcv (msqid : BitVec 32) (msgp msgsz msgtyp msgflg : UInt64) (unwritable : Option ℤ)
  | msgctl (args : MsgctlArgs)
  deriving DecidableEq, Repr

/-- What happens to the tracees of a namespace. -/
inductive MsgEvent
  | call (pid : ℕ) (fromSigsys : Bool) (c : MsgCall)
  | enter (pid : ℕ) (unwritable : Option ℤ)
  | leave (pid : ℕ) (unwritable : Option ℤ)
  | clone (parent child : ℕ) (thread : Bool)
  | exit (pid : ℕ)
  deriving DecidableEq, Repr

namespace MsgWorld

/-- The handler of one call. -/
def handle (w : MsgWorld) (self : ℕ) : MsgCall → MsgWorld × ℤ × MsgNote
  | .msgget a =>
    let got := SysVIpc.msgget w.queues a
    ({ w with queues := got.1 },
      match got.2 with
      | .ok i =>
        ((ipcObjectId i ((got.1[i]?.map (·.generation)).getD 0)).toInt,
          if findExisting w.queues a.key = none then .created i else .nothing)
      | .error errno => (-errno, .nothing))
  | .msgsnd a => SysVIpc.msgsnd w a
  | .msgrcv msqid msgp msgsz msgtyp msgflg unwritable =>
    SysVIpc.msgrcv w self msqid msgp msgsz msgtyp msgflg unwritable
  | .msgctl a => SysVIpc.msgctl w a

/-- A stop of a tracee that was woken: it retries when it was told to, and `wait_state` and
`chain_state` are cleared. -/
def resume (w : MsgWorld) (c : IpcTracee) (unwritable : Option ℤ) : MsgWorld × MsgNote :=
  let retried :=
    if c.chainState = .msgrcvRetry then msgrcvRetry w c unwritable else (w, .nothing)
  ({ retried.1 with
     tracees := updateTracee c.pid
      (fun c => { c with waitState := .notWaiting, chainState :=
        if c.chainState = .msgrcvRetry then .notChained else c.chainState })
      retried.1.tracees }, retried.2)

/-- One event; nothing happens after the tracer has aborted. -/
def step (w : MsgWorld) (e : MsgEvent) : MsgWorld × MsgNote :=
  if w.aborted then (w, .nothing)
  else match e with
    | .call pid fromSigsys call =>
      match callerOf pid w.tracees with
      | none => (w, .nothing)
      | some _ =>
        let r := w.handle pid call
        ({ r.1 with tracees := updateTracee pid (syscallTail fromSigsys r.2.1) r.1.tracees },
          r.2.2)
    | .enter pid unwritable =>
      match w.tracees.find? (·.pid = pid) with
      | none => (w, .nothing)
      | some c =>
        if c.waitState = .restartedIntoPpollCanceled then w.resume c unwritable
        else ({ w with tracees := updateTracee pid enterStart w.tracees }, .nothing)
    | .leave pid unwritable =>
      match w.tracees.find? (·.pid = pid) with
      | none => (w, .nothing)
      | some c =>
        if c.waitState = .signaledPpoll ∨ c.waitState = .enteredGetpid then
          w.resume c unwritable
        else ({ w with tracees := updateTracee pid exitStart w.tracees }, .nothing)
    | .clone parent child thread =>
      ({ w with tracees := cloneTracee parent child thread w.tracees }, .nothing)
    | .exit pid => ({ w with tracees := dropTracee pid w.tracees }, .left)

/-- A namespace at its start: no object, and the first tracee. -/
def initial (pid : ℕ) : MsgWorld := ⟨[], [IpcTracee.fresh pid pid], false⟩

end MsgWorld

end NeoProot.SysVIpc
