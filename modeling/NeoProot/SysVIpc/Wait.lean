import NeoProot.SysVIpc.Objects

/-!
# Waiting inside an emulated call

A tracee that has to wait is sent into a `ppoll` without descriptors, and
whoever wakes it interrupts that call.  `waitReason` says what the tracee waits
for, and is cleared by the tracee that wakes it; `waitState` follows the tracee
through the `ppoll`.

## Main definitions

* `IpcTracee` — a tracee with its configuration of the extension.
* `wakeTracee` — `sysvipc_wake_tracee`.
* `syscallTail` — the end of `sysvipc_syscall_common`.
* `enterStart`, `exitStart` — the two syscall stops of a tracee that waits.
-/

namespace NeoProot.SysVIpc

variable {child parent : ℕ} {thread : Bool}

/-- `struct SysVIpcSembuf`; the flags are sign-extended. -/
structure SysVIpcSembuf where
  semNum : ℕ
  semOp : ℤ
  semFlg : UInt64
  deriving DecidableEq, Repr

/-- The arguments of `msgrcv` that are kept for a retry. -/
structure MsgrcvArgs where
  msgp : UInt64
  msgsz : ℕ
  msgtyp : ℤ
  msgflg : UInt64
  deriving DecidableEq, Repr

/-- `struct SysVIpcConfig`, with the tracee it belongs to and the process it shares with the
other threads of its group. -/
structure IpcTracee extends SysVIpcConfig where
  pid : ℕ
  process : ℕ
  waitingObjectIndex : ℕ
  msgrcv : MsgrcvArgs
  semopSops : List SysVIpcSembuf
  shmatSocketFd : ℤ
  shmatMemFd : ℤ
  deriving DecidableEq, Repr

/-- `talloc_zero(ext, struct SysVIpcConfig)`. -/
def IpcTracee.fresh (pid process : ℕ) : IpcTracee where
  waitReason := .notWaiting
  waitState := .notWaiting
  chainState := .notChained
  statusAfterWait := 0
  pid := pid
  process := process
  waitingObjectIndex := 0
  msgrcv := ⟨0, 0, 0, 0⟩
  semopSops := []
  shmatSocketFd := 0
  shmatMemFd := 0

/-- `sysvipc_wake_tracee`. -/
def wakeTracee (status : ℤ) (c : IpcTracee) : IpcTracee :=
  { c with
    waitReason := .notWaiting
    statusAfterWait := status
    waitState :=
      match c.waitState with
      | .enteredPpoll => .signaledPpoll
      | .restartedIntoPpoll => .restartedIntoPpollCanceled
      | state => state }

/-- What `sysvipc_syscall_common` does after the handler of the call returned `status`. -/
def syscallTail (fromSigsys : Bool) (status : ℤ) (c : IpcTracee) : IpcTracee :=
  if c.chainState ≠ .notChained then
    if c.chainState = .single then { c with chainState := .notChained } else c
  else if c.waitReason ≠ .notWaiting then
    { c with waitState := if fromSigsys then .restartedIntoPpoll else .enteredPpoll }
  else if fromSigsys then c
  else { c with statusAfterWait := status, waitState := .enteredGetpid }

/-- `SYSCALL_ENTER_START` in a tracee that was restarted into its `ppoll`. -/
def enterStart (c : IpcTracee) : IpcTracee :=
  match c.waitState with
  | .restartedIntoPpoll => { c with waitState := .enteredPpoll }
  | .restartedIntoPpollCanceled => { c with waitState := .notWaiting }
  | _ => c

/-- `SYSCALL_EXIT_START`: the `ppoll` timed out or was interrupted, or a result is due. -/
def exitStart (c : IpcTracee) : IpcTracee :=
  match c.waitState with
  | .enteredPpoll =>
    { c with
      waitState := .notWaiting
      waitReason := .notWaiting
      semopSops := if c.waitReason = .waitSemop then [] else c.semopSops }
  | .signaledPpoll | .enteredGetpid => { c with waitState := .notWaiting }
  | _ => c

/-! ### The list of tracees -/

/-- Change one tracee. -/
def updateTracee (pid : ℕ) (f : IpcTracee → IpcTracee) (tracees : List IpcTracee) :
    List IpcTracee :=
  tracees.map fun c => if c.pid = pid then f c else c

/-- `INHERIT_CHILD`: the new tracee goes to the head of the list.  The kernel never gives it
the number of a tracee that lives. -/
def cloneTracee (parent child : ℕ) (thread : Bool) (tracees : List IpcTracee) :
    List IpcTracee :=
  match tracees.find? (·.pid = parent) with
  | some p =>
    if child ∈ tracees.map (·.pid) then tracees
    else IpcTracee.fresh child (if thread then p.process else child) :: tracees
  | none => tracees

/-- The end of a tracee. -/
def dropTracee (pid : ℕ) (tracees : List IpcTracee) : List IpcTracee :=
  tracees.filter (·.pid ≠ pid)

/-- The tracee that makes a call: the handlers are reached by tracees that do not wait. -/
def callerOf (pid : ℕ) (tracees : List IpcTracee) : Option IpcTracee :=
  tracees.find? fun c => c.pid = pid ∧ c.waitState = .notWaiting

/-- The tracees that wait for a removed queue or set are woken. -/
def wakeRemoved (reason : WaitReason) (idx : ℕ) (tracees : List IpcTracee) : List IpcTracee :=
  tracees.map fun c =>
    if c.waitReason = reason ∧ c.waitingObjectIndex = idx then wakeTracee (-EIDRM) c else c

section

variable {tracees : List IpcTracee} {pid : ℕ} {f : IpcTracee → IpcTracee} {c : IpcTracee}

@[simp] theorem wakeTracee_waitReason (status : ℤ) (c : IpcTracee) :
    (wakeTracee status c).waitReason = .notWaiting := rfl

@[simp] theorem wakeTracee_pid (status : ℤ) (c : IpcTracee) :
    (wakeTracee status c).pid = c.pid := rfl

@[simp] theorem syscallTail_waitReason (fromSigsys : Bool) (status : ℤ) (c : IpcTracee) :
    (syscallTail fromSigsys status c).waitReason = c.waitReason := by
  unfold syscallTail
  split_ifs <;> rfl

@[simp] theorem syscallTail_pid (fromSigsys : Bool) (status : ℤ) (c : IpcTracee) :
    (syscallTail fromSigsys status c).pid = c.pid := by
  unfold syscallTail
  split_ifs <;> rfl

@[simp] theorem syscallTail_waitingObjectIndex (fromSigsys : Bool) (status : ℤ)
    (c : IpcTracee) :
    (syscallTail fromSigsys status c).waitingObjectIndex = c.waitingObjectIndex := by
  unfold syscallTail
  split_ifs <;> rfl

@[simp] theorem syscallTail_semopSops (fromSigsys : Bool) (status : ℤ) (c : IpcTracee) :
    (syscallTail fromSigsys status c).semopSops = c.semopSops := by
  unfold syscallTail
  split_ifs <;> rfl

@[simp] theorem syscallTail_msgrcv (fromSigsys : Bool) (status : ℤ) (c : IpcTracee) :
    (syscallTail fromSigsys status c).msgrcv = c.msgrcv := by
  unfold syscallTail
  split_ifs <;> rfl

@[simp] theorem enterStart_pid (c : IpcTracee) : (enterStart c).pid = c.pid := by
  unfold enterStart
  split <;> rfl

@[simp] theorem exitStart_pid (c : IpcTracee) : (exitStart c).pid = c.pid := by
  unfold exitStart
  split <;> rfl

@[simp] theorem enterStart_waitReason (c : IpcTracee) :
    (enterStart c).waitReason = c.waitReason := by
  unfold enterStart
  split <;> rfl

theorem forall_mem_updateTracee {P : IpcTracee → Prop} :
    (∀ c ∈ updateTracee pid f tracees, P c) ↔
      ∀ c ∈ tracees, if c.pid = pid then P (f c) else P c := by
  rw [updateTracee, List.forall_mem_map]
  refine forall₂_congr fun c _ => ?_
  split <;> exact Iff.rfl

theorem map_pid_updateTracee (hf : ∀ c, (f c).pid = c.pid) :
    (updateTracee pid f tracees).map (·.pid) = tracees.map (·.pid) := by
  rw [updateTracee, List.map_map]
  refine List.map_congr_left fun c _ => ?_
  by_cases hc : c.pid = pid
  · simp [hc, hf c]
  · simp [hc]

theorem map_pid_updateTracee_of (hf : ∀ d ∈ tracees, d.pid = pid → (f d).pid = pid) :
    (updateTracee pid f tracees).map (·.pid) = tracees.map (·.pid) := by
  rw [updateTracee, List.map_map]
  refine List.map_congr_left fun d hd => ?_
  by_cases hpid : d.pid = pid
  · simp [hpid, hf d hd hpid]
  · simp [hpid]

theorem updateTracee_updateTracee {g : IpcTracee → IpcTracee} (hf : ∀ c, (f c).pid = c.pid) :
    updateTracee pid g (updateTracee pid f tracees) =
      updateTracee pid (fun c => g (f c)) tracees := by
  rw [updateTracee, updateTracee, updateTracee, List.map_map]
  refine List.map_congr_left fun c _ => ?_
  by_cases hc : c.pid = pid
  · simp [hc, hf c]
  · simp [hc]

theorem mem_updateTracee :
    c ∈ updateTracee pid f tracees ↔ ∃ d ∈ tracees, c = if d.pid = pid then f d else d := by
  rw [updateTracee, List.mem_map]
  simp only [eq_comm]

theorem mem_wakeRemoved {reason : WaitReason} {idx : ℕ} {d : IpcTracee}
    (h : d ∈ wakeRemoved reason idx tracees) :
    ∃ c ∈ tracees, (c.waitReason = reason ∧ c.waitingObjectIndex = idx ∧
        d = wakeTracee (-EIDRM) c) ∨
      (¬ (c.waitReason = reason ∧ c.waitingObjectIndex = idx) ∧ d = c) := by
  obtain ⟨c, hc, rfl⟩ := List.mem_map.1 h
  refine ⟨c, hc, ?_⟩
  split
  · rename_i hw
    exact .inl ⟨hw.1, hw.2, rfl⟩
  · rename_i hw
    exact .inr ⟨hw, rfl⟩

theorem map_pid_wakeRemoved (reason : WaitReason) (idx : ℕ) (tracees : List IpcTracee) :
    (wakeRemoved reason idx tracees).map (·.pid) = tracees.map (·.pid) := by
  rw [wakeRemoved, List.map_map]
  refine List.map_congr_left fun c _ => ?_
  dsimp only [Function.comp]
  split <;> rfl

theorem mem_cloneTracee (h : c ∈ cloneTracee parent child thread tracees) :
    c ∈ tracees ∨ ∃ process, c = IpcTracee.fresh child process := by
  unfold cloneTracee at h
  split at h
  · split at h
    · exact .inl h
    · rcases List.mem_cons.1 h with rfl | h
      · exact .inr ⟨_, rfl⟩
      · exact .inl h
  · exact .inl h

theorem mem_cloneTracee_of_mem (h : c ∈ tracees) : c ∈ cloneTracee parent child thread tracees := by
  unfold cloneTracee
  split
  · split
    · exact h
    · exact List.mem_cons_of_mem _ h
  · exact h

theorem nodup_cloneTracee (h : (tracees.map (·.pid)).Nodup) :
    ((cloneTracee parent child thread tracees).map (·.pid)).Nodup := by
  unfold cloneTracee
  split
  · split
    · exact h
    · rename_i hchild
      exact List.nodup_cons.2 ⟨hchild, h⟩
  · exact h

theorem mem_dropTracee (h : c ∈ dropTracee pid tracees) : c ∈ tracees :=
  List.mem_of_mem_filter h

theorem nodup_dropTracee (h : (tracees.map (·.pid)).Nodup) :
    ((dropTracee pid tracees).map (·.pid)).Nodup :=
  h.sublist (List.filter_sublist.map _)

theorem callerOf_eq_some (h : callerOf pid tracees = some c) :
    c ∈ tracees ∧ c.pid = pid ∧ c.waitState = .notWaiting := by
  have hp := List.find?_some h
  simp only [decide_eq_true_eq] at hp
  exact ⟨List.mem_of_find?_eq_some h, hp⟩

theorem eq_of_pid (hnodup : (tracees.map (·.pid)).Nodup) {c d : IpcTracee}
    (hc : c ∈ tracees) (hd : d ∈ tracees) (h : c.pid = d.pid) : c = d :=
  List.inj_on_of_nodup_map hnodup hc hd h

end

end NeoProot.SysVIpc
