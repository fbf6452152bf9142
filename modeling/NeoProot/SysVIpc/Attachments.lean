import NeoProot.SysVIpc.SharedMem
import NeoProot.Lib.Run
import Mathlib.Data.List.Perm.Basic

/-!
# What is attached and what is recorded

Beside the mappings that the tracer records a list is kept of what the tracees
have really attached.  `shm_accounted` says that the two agree, that every valid
segment has its list of mappings, and that a segment is destroyed exactly when it
is marked for removal and its last mapping is gone, as long as a run keeps away
from the calls that `KeepsAccount` lists.

## Main definitions

* `ShmRun` — a namespace with what is really attached.
* `ShmAccounted` — the records agree with it.
* `KeepsAccount` — the condition on an event.
-/

namespace NeoProot.SysVIpc

open Run

variable {tracees : List IpcTracee} {i idx pid process : ℕ} {c : IpcTracee} {q : IpcTracee → Bool}
  {w w' : ShmWorld} {maps : List SysVIpcSharedMemMap} {m : SysVIpcSharedMemMap}
  {made marked : ℕ → Bool} {e : ShmEvent} {s : ShmatStop}

/-- A `shmat` of the tracee is under way. -/
def Underway (c : IpcTracee) : Prop := InChain c ∨ c.waitReason = .waitShmatHelperBusy

instance (c : IpcTracee) : Decidable (Underway c) := inferInstanceAs (Decidable (_ ∨ _))

/-- A `shmat` of the process is under way on the segment. -/
def Attaching (process idx : ℕ) (c : IpcTracee) : Prop :=
  c.process = process ∧ c.waitingObjectIndex = idx ∧ Underway c

instance (process idx : ℕ) (c : IpcTracee) : Decidable (Attaching process idx c) :=
  inferInstanceAs (Decidable (_ ∧ _ ∧ _))

/-- The mapping is the record of a `shmat` that is not complete. -/
def Pending (process idx : ℕ) (m : SysVIpcSharedMemMap) : Prop :=
  m.process = process ∧ m.shmIndex = idx ∧ m.size = 0

instance (process idx : ℕ) (m : SysVIpcSharedMemMap) : Decidable (Pending process idx m) :=
  inferInstanceAs (Decidable (_ ∧ _ ∧ _))

/-- A segment that a process has really attached. -/
structure Attachment where
  process : ℕ
  shmIndex : ℕ
  addr : UInt64
  deriving DecidableEq, Repr

/-- What a complete mapping records. -/
def attachment (m : SysVIpcSharedMemMap) : Attachment := ⟨m.process, m.shmIndex, m.addr⟩

/-- The complete mappings. -/
def recorded (maps : List SysVIpcSharedMemMap) : List Attachment :=
  (maps.filter (·.size ≠ 0)).map attachment

/-- A result that is an error number of the kernel. -/
def IsErrorResult (result : UInt64) : Prop := 2 ^ 64 - 4095 ≤ result.toNat

instance (result : UInt64) : Decidable (IsErrorResult result) :=
  inferInstanceAs (Decidable (_ ≤ _))

/-! ### The account -/

/-- A namespace, what its tracees have really attached, the slots that have held a segment,
those whose segment has been marked for removal, and whether a `shmget` that failed has left a
segment behind. -/
structure ShmRun where
  world : ShmWorld
  attached : List Attachment
  made : ℕ → Bool
  marked : ℕ → Bool
  leaked : Bool

variable {r : ShmRun}

/-- The slot holds a live segment that it did not hold before. -/
def newlyMade (before after : List SysVIpcSharedMem) (i : ℕ) : Bool :=
  ¬ ValidAt before i ∧ ValidAt after i

namespace ShmRun

/-- What is really attached after an event: `mmap` and `fork` attach, `munmap`, a successful
`execve` and the end of a process detach. -/
def attachedAfter (r : ShmRun) : ShmEvent → List Attachment
  | .call pid _ (.shmdt addr) =>
    match r.world.caller pid with
    | none => r.attached
    | some c =>
      match r.world.maps.find? fun m => m.process = c.process ∧ m.addr = addr with
      | none => r.attached
      | some m => r.attached.erase (attachment m)
  | .leave pid s =>
    match r.world.tracees.find? (·.pid = pid) with
    | none => r.attached
    | some c =>
      if c.waitState = .notWaiting ∧ c.chainState = .shmatMmap ∧ ¬ IsErrorResult s.result then
        ⟨c.process, c.waitingObjectIndex, s.result⟩ :: r.attached
      else r.attached
  | .clone parent child thread _ =>
    match r.world.tracees.find? (·.pid = parent) with
    | none => r.attached
    | some p =>
      if child ∈ r.world.tracees.map (·.pid) ∨ child ∈ r.world.tracees.map (·.process) then
        r.attached
      else if thread then r.attached
      else r.attached ++
        (r.attached.filter (·.process = p.process)).map fun a => { a with process := child }
  | .execve pid succeeds =>
    match r.world.caller pid with
    | none => r.attached
    | some c => if succeeds then r.attached.filter (·.process ≠ c.process) else r.attached
  | .exit pid =>
    match r.world.tracees.find? (·.pid = pid) with
    | none => r.attached
    | some c =>
      if ∃ d ∈ dropTracee pid r.world.tracees, d.process = c.process then r.attached
      else r.attached.filter (·.process ≠ c.process)
  | _ => r.attached

/-- The segment that a call marks for removal. -/
def marks (r : ShmRun) : ShmEvent → Option ℕ
  | .call pid _ (.shmctl a) =>
    if r.world.caller pid ≠ none ∧ (a.cmd = IPC_RMID ∨ a.cmd = SYSVIPC_IPC_64) then
      lookupIpcObject r.world.shms a.shmid
    else none
  | _ => none

/-- The call is a `shmget` that answers with an error and makes a segment. -/
def leaks (r : ShmRun) : ShmEvent → Bool
  | .call pid _ (.shmget a) =>
    match r.world.caller pid, SysVIpc.shmget r.world.shms a with
    | some _, (shms, .error _) =>
      (List.range shms.length).any fun i => newlyMade r.world.shms shms i
    | _, _ => false
  | _ => false

/-- One event; a segment that is made is not marked yet. -/
def step (r : ShmRun) (e : ShmEvent) : ShmRun :=
  if r.world.crashed then r
  else
    let world := r.world.step e
    { world := world
      attached := r.attachedAfter e
      made := fun i => r.made i || newlyMade r.world.shms world.shms i
      marked := fun i =>
        !newlyMade r.world.shms world.shms i && (r.marked i || r.marks e = some i)
      leaked := r.leaked || r.leaks e }

/-- A namespace at its start. -/
def initial (pid : ℕ) : ShmRun := 
  ⟨ShmWorld.initial pid, [], fun _ => false, fun _ => false, false⟩

end ShmRun

/-- The number of attachments that an `IPC_STAT` of the segment reports. -/
def reportedNattch (w : ShmWorld) (i : ℕ) : Option ℕ :=
  (contentAt w.shms i).map fun s => (updateStats (attachedTo i w.maps) s).shmNattch

/-- The records of a namespace agree with what is attached. -/
structure ShmAccounted (r : ShmRun) : Prop where
  running : r.world.crashed = false
  /-- The complete mappings are what is really attached. -/
  recorded : (recorded r.world.maps).Perm r.attached
  /-- The other mappings are those of the `shmat`s under way. -/
  pending : ∀ process idx, r.world.maps.countP (Pending process idx) =
    r.world.tracees.countP (Attaching process idx)
  /-- What is reported of a segment is what is attached and what is being attached. -/
  nattch : ∀ i n, reportedNattch r.world i = some n →
    n = r.attached.countP (·.shmIndex = i) +
      r.world.tracees.countP fun c => Underway c ∧ c.waitingObjectIndex = i
  /-- No `shmget` that failed has left a segment. -/
  unleaked : r.leaked = false
  /-- A segment lives until it is marked for removal and has no mapping. -/
  destroyed : ∀ i, r.made i = true →
    (ValidAt r.world.shms i ↔ ¬ (r.marked i = true ∧ attachedTo i r.world.maps = 0))

/-- The condition on an event.  Each part keeps away from one way of losing track: a `shmget`
without memory for its list of mappings, an interrupted wait for the helper, an `mmap` that
fails with an error number other than 1, a `shmdt` of a `shmat` under way, a fork without
memory for the copies or during a `shmat`, an `execve` that fails or comes during a `shmat`, and
the end of a thread during a `shmat`. -/
def KeepsAccount (r : ShmRun) : ShmEvent → Prop
  | .call _ _ (.shmget a) => a.allocates = true
  | .call pid _ (.shmdt addr) =>
    ∀ c ∈ r.world.caller pid,
      ∀ m ∈ r.world.maps.find? fun m => m.process = c.process ∧ m.addr = addr, m.size ≠ 0
  | .call _ _ (.shmat _ _) | .call _ _ (.shmctl _) | .enter _ => True
  | .leave pid s =>
    ∀ c ∈ r.world.tracees.find? (·.pid = pid),
      (c.waitState = .enteredPpoll → c.waitReason ≠ .waitShmatHelperBusy) ∧
      (c.waitState = .notWaiting → c.chainState = .shmatMmap →
        s.result = -1 ∨ (¬ IsErrorResult s.result ∧ s.sysarg2 ≠ 0))
  | .clone parent _ thread copied =>
    thread = false →
      (∀ b ∈ copied, b = true) ∧
      ∀ p ∈ r.world.tracees.find? (·.pid = parent),
        ∀ c ∈ r.world.tracees, c.process = p.process → ¬ Underway c
  | .execve pid succeeds =>
    ∀ c ∈ r.world.caller pid,
      (∀ m ∈ r.world.maps, m.process ≠ c.process) ∨
        (succeeds = true ∧ ∀ d ∈ r.world.tracees, d.process = c.process → ¬ Underway d)
  | .exit pid =>
    ∀ c ∈ r.world.tracees.find? (·.pid = pid), Underway c →
      ∀ d ∈ r.world.tracees, d.pid ≠ pid → d.process ≠ c.process

instance (r : ShmRun) (e : ShmEvent) : Decidable (KeepsAccount r e) := by
  rcases e with ⟨_, _, _ | _ | _ | _⟩ | _ | _ | _ | _ | _ <;> dsimp only [KeepsAccount] <;>
    infer_instance

/-! ### Counting tracees -/

theorem updateTracee_of_notMem (h : pid ∉ tracees.map (·.pid)) (f : IpcTracee → IpcTracee) :
    updateTracee pid f tracees = tracees := by
  have hid : ∀ c ∈ tracees, (if c.pid = pid then f c else c) = id c := by
    intro c hc
    refine if_neg fun hpid => h ?_
    rw [← hpid]
    exact List.mem_map_of_mem hc
  rw [updateTracee, List.map_congr_left hid, List.map_id]

theorem countP_updateTracee (hnodup : (tracees.map (·.pid)).Nodup) (hc : c ∈ tracees)
    (f : IpcTracee → IpcTracee) (q : IpcTracee → Bool) :
    (updateTracee c.pid f tracees).countP q + (q c).toNat =
      tracees.countP q + (q (f c)).toNat := by
  induction tracees with
  | nil => cases hc
  | cons d ds ih =>
    rw [List.map_cons] at hnodup
    obtain ⟨hd, hnodup'⟩ := List.nodup_cons.1 hnodup
    have hcons : updateTracee c.pid f (d :: ds) =
        (if d.pid = c.pid then f d else d) :: updateTracee c.pid f ds := rfl
    rw [hcons]
    rcases List.mem_cons.1 hc with rfl | hc'
    · rw [updateTracee_of_notMem hd, if_pos rfl, List.countP_cons, List.countP_cons]
      cases q c <;> cases q (f c) <;> simp
    · have hne : d.pid ≠ c.pid := fun hpid => hd (hpid ▸ List.mem_map_of_mem hc')
      rw [if_neg hne, List.countP_cons, List.countP_cons]
      have := ih hnodup' hc'
      omega

theorem countP_map_congr {f : IpcTracee → IpcTracee} (h : ∀ c ∈ tracees, q (f c) = q c) :
    (tracees.map f).countP q = tracees.countP q := by
  rw [List.countP_map]
  exact List.countP_congr fun c hc => by simp [h c hc]

theorem countP_updateTracee_congr {f : IpcTracee → IpcTracee}
    (h : ∀ c ∈ tracees, c.pid = pid → q (f c) = q c) :
    (updateTracee pid f tracees).countP q = tracees.countP q := by
  refine countP_map_congr fun c hc => ?_
  split
  · rename_i hpid
    exact h c hc hpid
  · rfl

theorem attaching_congr {d : IpcTracee} (hp : d.process = c.process)
    (hi : d.waitingObjectIndex = c.waitingObjectIndex) (hu : Underway d ↔ Underway c) :
    decide (Attaching process idx d) = decide (Attaching process idx c) := by
  rw [decide_eq_decide, Attaching, Attaching, hp, hi, hu]

theorem countP_wakePendingShmat (process idx : ℕ) (tracees : List IpcTracee) :
    (wakePendingShmat tracees).countP (Attaching process idx) =
      tracees.countP (Attaching process idx) := by
  induction tracees with
  | nil => rfl
  | cons c cs ih =>
    rw [wakePendingShmat]
    split
    · rename_i hw
      rw [List.countP_cons, List.countP_cons]
      have hsame : decide (Attaching process idx
          { wakeTracee 0 c with chainState := .shmatSocket }) =
          decide (Attaching process idx c) :=
        attaching_congr rfl rfl (iff_of_true (.inl (.inl rfl)) (.inr hw))
      rw [hsame]
    · rw [List.countP_cons, List.countP_cons, ih]

theorem map_pid_wakePendingShmat (tracees : List IpcTracee) :
    (wakePendingShmat tracees).map (·.pid) = tracees.map (·.pid) := by
  induction tracees with
  | nil => rfl
  | cons c cs ih =>
    rw [wakePendingShmat]
    split
    · rfl
    · simp [ih]

theorem mem_wakePendingShmat {d : IpcTracee} (h : d ∈ wakePendingShmat tracees) :
    d ∈ tracees ∨ ∃ c ∈ tracees, c.waitReason = .waitShmatHelperBusy ∧
      d = { wakeTracee 0 c with chainState := .shmatSocket } := by
  induction tracees with
  | nil => exact .inl h
  | cons c cs ih =>
    rw [wakePendingShmat] at h
    split at h
    · rename_i hw
      rcases List.mem_cons.1 h with hd | hd
      · exact .inr ⟨c, List.mem_cons_self, hw, hd⟩
      · exact .inl (List.mem_cons_of_mem c hd)
    · rcases List.mem_cons.1 h with rfl | hd
      · exact .inl List.mem_cons_self
      · rcases ih hd with hd | ⟨c', hc', hw, hd⟩
        · exact .inl (List.mem_cons_of_mem c hd)
        · exact .inr ⟨c', List.mem_cons_of_mem c hc', hw, hd⟩

/-! ### The phases of a tracee -/

/-- A tracee is idle, waits for the helper inside its `ppoll`, or is in its chain. -/
inductive ShmPhase (c : IpcTracee) : Prop
  | idle (hr : c.waitReason = .notWaiting) (hc : c.chainState = .notChained)
  | waiting (hr : c.waitReason = .waitShmatHelperBusy) (hc : c.chainState = .notChained)
      (hs : c.waitState = .enteredPpoll ∨ c.waitState = .restartedIntoPpoll)
  | chained (hr : c.waitReason = .notWaiting) (hc : InChain c)

theorem not_inChain_of_notChained (h : c.chainState = .notChained) : ¬ InChain c := by
  rintro (hc | hc | hc | hc) <;> rw [h] at hc <;> cases hc

theorem not_underway (hr : c.waitReason = .notWaiting) (hc : c.chainState = .notChained) :
    ¬ Underway c := by
  rintro (h | h)
  · exact not_inChain_of_notChained hc h
  · rw [hr] at h
    cases h

/-- The caller is idle. -/
theorem ShmPhase.idle_of_caller (h : ShmPhase c) (hs : c.waitState = .notWaiting) :
    c.waitReason = .notWaiting := by
  cases h with
  | idle hr => exact hr
  | waiting _ _ hin => rcases hin with hin | hin <;> rw [hs] at hin <;> cases hin
  | chained hr => exact hr

theorem caller_eq_some (h : w.caller pid = some c) :
    c ∈ w.tracees ∧ c.pid = pid ∧ c.waitState = .notWaiting ∧ c.chainState = .notChained := by
  have hp := List.find?_some h
  simp only [decide_eq_true_eq] at hp
  exact ⟨List.mem_of_find?_eq_some h, hp⟩

theorem find_pid_eq_some (h : tracees.find? (·.pid = pid) = some c) : c ∈ tracees ∧ c.pid = pid :=
  ⟨List.mem_of_find?_eq_some h, by simpa using List.find?_some h⟩

/-! ### Slots -/

/-- What holds of one slot: a live segment has its list of mappings and is marked exactly when
its removal waits for its mappings; a slot without one has no mapping, and if it has held a
segment that one was marked. -/
def SlotOk (content : Option SharedMemContent) (made marked : Bool) (n : ℕ) : Prop :=
  match content with
  | some s => made = true ∧ s.mappings = true ∧ s.rmidPending = marked ∧ (marked = true → n ≠ 0)
  | none => n = 0 ∧ (made = true → marked = true)

/-- The segments and mappings of a namespace against the slots. -/
def SlotsOk (w : ShmWorld) (made marked : ℕ → Bool) : Prop :=
  ∀ i, SlotOk (contentAt w.shms i) (made i) (marked i) (attachedTo i w.maps)

theorem attachedTo_erase_other (h : m.shmIndex ≠ i) :
    attachedTo i (maps.erase m) = attachedTo i maps := by
  by_cases hm : m ∈ maps
  · have hperm := (List.perm_cons_erase hm).countP_eq (·.shmIndex = i)
    rw [List.countP_cons_of_neg (by simpa using h)] at hperm
    exact hperm.symm
  · rw [List.erase_of_not_mem hm]

theorem maps_settle (w : ShmWorld) (idx : ℕ) : (settle w idx).maps = w.maps := by
  unfold settle
  split
  · rfl
  · split <;> rfl

theorem tracees_settle (w : ShmWorld) (idx : ℕ) : (settle w idx).tracees = w.tracees := by
  unfold settle
  split
  · rfl
  · split <;> rfl

theorem crashed_settle (w : ShmWorld) (idx : ℕ) : (settle w idx).crashed = w.crashed := by
  unfold settle
  split
  · rfl
  · split <;> rfl

/-- What `settle` makes of the live segments. -/
theorem contentAt_settle (w : ShmWorld) (idx i : ℕ) :
    contentAt (settle w idx).shms i =
      if i = idx ∧ attachedTo idx w.maps = 0 ∧
        ∃ s, contentAt w.shms idx = some s ∧ s.rmidPending = true then none
      else contentAt w.shms i := by
  unfold settle
  cases ho : w.shms[idx]? with
  | none =>
    have hnone : contentAt w.shms idx = none := by rw [contentAt, ho]
    rw [if_neg]
    rintro ⟨-, -, s, hs, -⟩
    rw [hnone] at hs
    cases hs
  | some o =>
    dsimp only
    by_cases hgone : o.content.rmidPending = true ∧ attachedTo idx w.maps = 0
    · rw [if_pos hgone]
      dsimp only
      rw [contentAt_modify_invalid _ _ fun _ => rfl, Function.update_apply]
      by_cases hi : i = idx
      · rw [if_pos hi]
        by_cases hv : o.valid = true
        · rw [if_pos ⟨hi, hgone.2, o.content, contentAt_of_get ho hv, hgone.1⟩]
        · have hnone : contentAt w.shms idx = none := by simp [contentAt, ho, hv]
          rw [hi, hnone, ite_self]
      · rw [if_neg hi, if_neg fun h => hi h.1]
    · rw [if_neg hgone, if_neg]
      rintro ⟨-, hn, s, hs, hp⟩
      rw [contentAt, ho] at hs
      dsimp only at hs
      split at hs
      · rw [Option.some.injEq] at hs
        exact hgone ⟨hs ▸ hp, hn⟩
      · cases hs

/-- Releasing a mapping keeps the slots right. -/
theorem SlotsOk.releaseMap (h : SlotsOk w made marked) (m : SysVIpcSharedMemMap) :
    SlotsOk (SysVIpc.releaseMap w m) made marked := by
  intro i
  have hi := h i
  rw [SysVIpc.releaseMap, contentAt_settle, maps_settle]
  dsimp only
  by_cases him : i = m.shmIndex
  · rw [him] at hi ⊢
    have hle : attachedTo m.shmIndex (w.maps.erase m) ≤ attachedTo m.shmIndex w.maps :=
      List.Sublist.countP_le (List.erase_sublist)
    cases hc : contentAt w.shms m.shmIndex with
    | none =>
      rw [hc] at hi
      obtain ⟨hn, hmade⟩ := hi
      rw [if_neg fun hx => by obtain ⟨-, -, s, hs, -⟩ := hx; cases hs]
      exact ⟨by omega, hmade⟩
    | some s =>
      rw [hc] at hi
      obtain ⟨hmade, hlist, hmarked, hn⟩ := hi
      by_cases hgone : attachedTo m.shmIndex (w.maps.erase m) = 0 ∧ s.rmidPending = true
      · rw [if_pos ⟨rfl, hgone.1, s, rfl, hgone.2⟩]
        exact ⟨hgone.1, fun _ => hmarked ▸ hgone.2⟩
      · rw [if_neg]
        · exact ⟨hmade, hlist, hmarked, fun hm hz => hgone ⟨hz, hmarked.trans hm⟩⟩
        · rintro ⟨-, hz, s', hs', hp⟩
          rw [Option.some.injEq] at hs'
          exact hgone ⟨hz, hs' ▸ hp⟩
  · rw [if_neg fun hx => him hx.1, attachedTo_erase_other (Ne.symm him)]
    exact hi

theorem SlotsOk.foldl_releaseMap (ms : List SysVIpcSharedMemMap) (h : SlotsOk w made marked) :
    SlotsOk (ms.foldl SysVIpc.releaseMap w) made marked := by
  induction ms generalizing w with
  | nil => exact h
  | cons m ms ih => exact ih (h.releaseMap m)

theorem foldl_releaseMap (ms : List SysVIpcSharedMemMap) (w : ShmWorld) :
    (ms.foldl releaseMap w).maps = w.maps.diff ms ∧
      (ms.foldl releaseMap w).tracees = w.tracees ∧
      (ms.foldl releaseMap w).crashed = w.crashed := by
  induction ms generalizing w with
  | nil => exact ⟨rfl, rfl, rfl⟩
  | cons m ms ih =>
    obtain ⟨hmaps, htracees, hcrashed⟩ := ih (releaseMap w m)
    rw [List.foldl_cons, List.diff_cons, hmaps, htracees, hcrashed, releaseMap, maps_settle,
      tracees_settle, crashed_settle]
    exact ⟨rfl, rfl, rfl⟩

/-- The mappings of a process go, the others stay. -/
theorem perm_removeMappings (w : ShmWorld) (process : ℕ) :
    (removeMappings w process).maps.Perm (w.maps.filter (·.process ≠ process)) := by
  rw [removeMappings, (foldl_releaseMap _ w).1, List.perm_iff_count]
  intro m
  rw [List.count_diff]
  have hnot {q : SysVIpcSharedMemMap → Bool} (hq : q m = false) :
      (w.maps.filter q).count m = 0 := by
    rw [List.count_eq_zero]
    intro hmem
    rw [(List.mem_filter.1 hmem).2] at hq
    cases hq
  by_cases hm : m.process = process
  · have hall : (w.maps.filter fun m => decide (m.process = process)).count m =
        w.maps.count m := List.count_filter (by simpa using hm)
    rw [hall, hnot (by simpa using hm), Nat.sub_self]
  · have hall : (w.maps.filter fun m => decide (m.process ≠ process)).count m =
        w.maps.count m := List.count_filter (by simpa using hm)
    rw [hall, hnot (by simpa using hm), Nat.sub_zero]

/-! ### The records under changes of the list of mappings -/

theorem recorded_perm {maps' : List SysVIpcSharedMemMap} (h : maps.Perm maps') :
    (recorded maps).Perm (recorded maps') :=
  (h.filter _).map _

theorem recorded_cons_pending (h : m.size = 0) : recorded (m :: maps) = recorded maps := by
  rw [recorded, List.filter_cons_of_neg (by simp [h])]
  rfl

theorem recorded_cons (h : m.size ≠ 0) : recorded (m :: maps) = attachment m :: recorded maps := by
  rw [recorded, List.filter_cons_of_pos (by simpa using h)]
  rfl

theorem recorded_filter_process (maps : List SysVIpcSharedMemMap) (process : ℕ) :
    recorded (maps.filter (·.process ≠ process)) =
      (recorded maps).filter (·.process ≠ process) := by
  rw [recorded, recorded, List.filter_map, List.filter_filter, List.filter_filter]
  congr 1
  refine List.filter_congr fun m _ => ?_
  simp only [attachment, Function.comp]
  exact Bool.and_comm _ _

theorem perm_replace (h : m ∈ maps) (m' : SysVIpcSharedMemMap) :
    (maps.replace m m').Perm (m' :: maps.erase m) := by
  induction maps with
  | nil => cases h
  | cons x xs ih =>
    by_cases hx : x = m
    · rw [hx, List.replace_cons_self, List.erase_cons_head]
    · have hxm : (x == m) = false := by simpa using hx
      have hmx : (m == x) = false := by simpa using Ne.symm hx
      rw [List.replace_cons, hmx, List.erase_cons, hxm]
      rcases List.mem_cons.1 h with rfl | h'
      · exact absurd rfl hx
      · exact ((ih h').cons x).trans (.swap m' x _)

/-- The copies of a fork that finds memory for all of them. -/
theorem perm_inheritMaps (parent child : ℕ) {copied : List Bool}
    (h : ∀ b ∈ copied, b = true) (maps : List SysVIpcSharedMemMap) :
    (inheritMaps parent child copied maps).Perm
      (maps ++ (maps.filter (·.process = parent)).map fun m => { m with process := child }) := by
  induction maps generalizing copied with
  | nil =>
    rw [inheritMaps]
    exact .refl _
  | cons m ms ih =>
    rw [inheritMaps]
    have htail : ∀ b ∈ copied.tail, b = true := fun b hb => h b (List.mem_of_mem_tail hb)
    have hhead : copied.headD true = true := by
      cases copied with
      | nil => rfl
      | cons b bs => exact h b List.mem_cons_self
    by_cases hm : m.process = parent
    · rw [if_pos hm, if_pos hhead, List.filter_cons_of_pos (by simpa using hm), List.map_cons,
        List.cons_append]
      exact (((ih htail).cons _).trans List.perm_middle.symm).cons m
    · rw [if_neg hm, List.filter_cons_of_neg (by simpa using hm), List.cons_append]
      exact (ih h).cons m

/-! ### The invariant of a run -/

/-- The invariant behind the account. -/
structure ShmRun.Inv (r : ShmRun) : Prop where
  running : r.world.crashed = false
  nodup : (r.world.tracees.map (·.pid)).Nodup
  phase : ∀ c ∈ r.world.tracees, ShmPhase c
  recorded : (recorded r.world.maps).Perm r.attached
  pending : ∀ process idx, r.world.maps.countP (Pending process idx) =
    r.world.tracees.countP (Attaching process idx)
  slots : SlotsOk r.world r.made r.marked

/-- The mappings of a segment are what is attached and what is being attached. -/
theorem ShmRun.Inv.attachedTo_eq (h : r.Inv) (i : ℕ) :
    attachedTo i r.world.maps = r.attached.countP (·.shmIndex = i) +
      r.world.tracees.countP fun c => Underway c ∧ c.waitingObjectIndex = i := by
  have hperm : ((r.world.maps.filter (·.size = 0)).map fun m => (m.process, m.shmIndex)).Perm
      ((r.world.tracees.filter fun c => Underway c).map
        fun c => (c.process, c.waitingObjectIndex)) := by
    rw [List.perm_iff_count]
    rintro ⟨process, idx⟩
    rw [List.count_eq_countP, List.count_eq_countP, List.countP_map, List.countP_map,
      List.countP_filter, List.countP_filter]
    refine Eq.trans (List.countP_congr fun m _ => ?_)
      ((h.pending process idx).trans (List.countP_congr fun c _ => ?_))
    · simp only [Function.comp, decide_eq_true_eq, beq_iff_eq, Prod.mk.injEq, Bool.and_eq_true]
      exact and_assoc
    · simp only [Function.comp, decide_eq_true_eq, beq_iff_eq, Prod.mk.injEq, Bool.and_eq_true]
      exact and_assoc.symm
  have hpending := hperm.countP_eq (·.2 = i)
  have hrecorded := h.recorded.countP_eq (·.shmIndex = i)
  rw [List.countP_map, List.countP_map, List.countP_filter, List.countP_filter] at hpending
  rw [SysVIpc.recorded, List.countP_map, List.countP_filter] at hrecorded
  rw [← hrecorded]
  have hsplit : attachedTo i r.world.maps =
      r.world.maps.countP (fun m => decide (m.shmIndex = i) && decide (m.size ≠ 0)) +
        r.world.maps.countP (fun m => decide (m.shmIndex = i) && decide (m.size = 0)) := by
    rw [attachedTo]
    induction r.world.maps with
    | nil => rfl
    | cons m ms ih =>
      by_cases hi : m.shmIndex = i <;> by_cases hs : m.size = 0 <;>
        simp [hi, hs, ih] <;> omega
  rw [hsplit]
  congr 1
  refine Eq.trans hpending (List.countP_congr fun c _ => ?_)
  simp [and_comm]

theorem ShmRun.Inv.nattch (h : r.Inv) (i n : ℕ) (hn : reportedNattch r.world i = some n) :
    n = r.attached.countP (·.shmIndex = i) +
      r.world.tracees.countP fun c => Underway c ∧ c.waitingObjectIndex = i := by
  rw [reportedNattch, Option.map_eq_some_iff] at hn
  obtain ⟨s, hs, rfl⟩ := hn
  have hslot := h.slots i
  rw [hs] at hslot
  rw [updateStats, if_pos hslot.2.1]
  exact h.attachedTo_eq i

theorem ShmRun.Inv.accounted (h : r.Inv) (hleaked : r.leaked = false) : ShmAccounted r := by
  refine ⟨h.running, h.recorded, h.pending, h.nattch, hleaked, ?_⟩
  intro i hmade
  have hslot := h.slots i
  rw [validAt_iff_contentAt]
  cases hc : contentAt r.world.shms i with
  | none =>
    rw [hc] at hslot
    refine iff_of_false (by simp) (not_not.2 ⟨hslot.2 hmade, hslot.1⟩)
  | some s =>
    rw [hc] at hslot
    refine iff_of_true ⟨s, rfl⟩ ?_
    rintro ⟨hmarked, hn⟩
    exact hslot.2.2.2 hmarked hn

/-- The slots after an event that makes no segment. -/
theorem SlotsOk.ghost {before : List SysVIpcSharedMem} {marks : Option ℕ}
    (hnew : ∀ i, ValidAt w.shms i → ValidAt before i)
    (h : SlotsOk w made fun i => marked i || decide (marks = some i)) :
    SlotsOk w (fun i => made i || newlyMade before w.shms i)
      fun i => !newlyMade before w.shms i && (marked i || decide (marks = some i)) := by
  have hno (i : ℕ) : newlyMade before w.shms i = false := by
    rw [newlyMade, decide_eq_false_iff_not]
    rintro ⟨hold, hlive⟩
    exact hold (hnew i hlive)
  intro i
  simp only [hno, Bool.or_false, Bool.not_false, Bool.true_and]
  exact h i

/-- A mapping is recorded only for a live segment. -/
theorem SlotsOk.validAt (h : SlotsOk w made marked) (hm : m ∈ w.maps) :
    ValidAt w.shms m.shmIndex := by
  rw [validAt_iff_contentAt]
  have hslot := h m.shmIndex
  cases hc : contentAt w.shms m.shmIndex with
  | some s => exact ⟨s, rfl⟩
  | none =>
    rw [hc] at hslot
    have hpos : 0 < attachedTo m.shmIndex w.maps :=
      List.countP_pos_iff.2 ⟨m, hm, by simp⟩
    have hzero := hslot.1
    omega

theorem validAt_settle (h : ValidAt (settle w idx).shms i) : ValidAt w.shms i := by
  rw [validAt_iff_contentAt] at h ⊢
  obtain ⟨s, hs⟩ := h
  rw [contentAt_settle] at hs
  split at hs
  · cases hs
  · exact ⟨s, hs⟩

theorem validAt_foldl_releaseMap {ms : List SysVIpcSharedMemMap}
    (h : ValidAt (ms.foldl releaseMap w).shms i) : ValidAt w.shms i := by
  induction ms generalizing w with
  | nil => exact h
  | cons m ms ih =>
    have hrelease : ValidAt (releaseMap w m).shms i := ih h
    exact validAt_settle (w := { w with maps := w.maps.erase m }) hrelease

/-! ### Calls -/

theorem underway_syscallTail (fromSigsys : Bool) (status : ℤ) (c : IpcTracee) :
    Underway (syscallTail fromSigsys status c) ↔ Underway c := by
  rw [Underway, syscallTail_waitReason]
  refine or_congr_left ?_
  unfold syscallTail
  split
  · split
    · rename_i hsingle
      refine iff_of_false (not_inChain_of_notChained rfl) ?_
      rintro (hc | hc | hc | hc) <;> rw [hsingle] at hc <;> cases hc
    · exact Iff.rfl
  · split
    · exact Iff.rfl
    · split <;> exact Iff.rfl

theorem syscallTail_process (fromSigsys : Bool) (status : ℤ) (c : IpcTracee) :
    (syscallTail fromSigsys status c).process = c.process := by
  unfold syscallTail
  split_ifs <;> rfl

theorem shmPhase_tail (fromSigsys : Bool) (status : ℤ) (hr : c.waitReason = .notWaiting)
    (hc : c.chainState = .notChained) : ShmPhase (syscallTail fromSigsys status c) := by
  refine .idle (by rw [syscallTail_waitReason, hr]) ?_
  rw [syscallTail, if_neg (not_not.2 hc)]
  split_ifs <;> exact hc

/-- The end of a call in the caller changes nothing of the account. -/
theorem countP_tail (process idx pid : ℕ) (fromSigsys : Bool) (status : ℤ)
    (tracees : List IpcTracee) :
    (updateTracee pid (syscallTail fromSigsys status) tracees).countP (Attaching process idx) =
      tracees.countP (Attaching process idx) :=
  countP_updateTracee_congr fun c _ _ =>
    attaching_congr (syscallTail_process fromSigsys status c) (by simp)
      (underway_syscallTail fromSigsys status c)

/-- The phases after a call that leaves the tracees alone. -/
theorem phase_tail (hnodup : (w.tracees.map (·.pid)).Nodup) (hphase : ∀ c ∈ w.tracees, ShmPhase c)
    (hcaller : w.caller pid = some c) (fromSigsys : Bool) (status : ℤ) :
    ∀ d ∈ updateTracee pid (syscallTail fromSigsys status) w.tracees, ShmPhase d := by
  obtain ⟨hc, hpid, hs, hchain⟩ := caller_eq_some hcaller
  refine forall_mem_updateTracee.2 fun d hd => ?_
  split
  · rename_i hdpid
    rw [eq_of_pid hnodup hd hc (hdpid.trans hpid.symm)]
    exact shmPhase_tail fromSigsys status ((hphase c hc).idle_of_caller hs) hchain
  · exact hphase d hd

/-- What `shmget` makes of the segments. -/
theorem shmget_objects (objects : List SysVIpcSharedMem) (a : ShmgetArgs) :
    (shmget objects a).1 = objects ∨
      ∃ o, (shmget objects a).1 = place objects o ∧ o.generation = 0 ∧
        (o.valid = true → o.content.mappings = a.allocates ∧ o.content.rmidPending = false) := by
  rw [shmget]
  split
  · split
    · exact .inl rfl
    · split
      · exact .inl rfl
      · split <;> exact .inl rfl
  · split
    · exact .inl rfl
    · split
      · exact .inl rfl
      · split
        · exact .inl rfl
        · dsimp only
          split
          · exact .inr ⟨_, rfl, rfl, nofun⟩
          · exact .inr ⟨_, rfl, rfl, fun _ => ⟨rfl, rfl⟩⟩

theorem newlyMade_same {before after : List SysVIpcSharedMem}
    (h : contentAt after i = contentAt before i) : newlyMade before after i = false := by
  rw [newlyMade, decide_eq_false_iff_not, validAt_iff_contentAt, validAt_iff_contentAt, h]
  exact fun h => h.1 h.2

/-- A segment that is made starts unmarked, with its list of mappings and no mapping. -/
theorem slotsOk_shmget (h : SlotsOk w made marked) {a : ShmgetArgs} (ha : a.allocates = true)
    (hmaps : w'.maps = w.maps) (hshms : w'.shms = (shmget w.shms a).1) :
    SlotsOk w' (fun i => made i || newlyMade w.shms w'.shms i)
      fun i => !newlyMade w.shms w'.shms i && (marked i || decide (none = some i)) := by
  intro i
  have hi := h i
  rw [hmaps]
  dsimp only
  rcases shmget_objects w.shms a with hsame | ⟨o, hplace, -, ho⟩
  · have hcontent : contentAt w'.shms i = contentAt w.shms i := by rw [hshms, hsame]
    rw [newlyMade_same hcontent, hcontent]
    simpa using hi
  · have hcontent : contentAt w'.shms i = if i = claimIndex w.shms then
        (if o.valid then some o.content else none) else contentAt w.shms i := by
      rw [hshms, hplace, contentAt_place, Function.update_apply]
    by_cases hidx : i = claimIndex w.shms
    · rw [if_pos hidx] at hcontent
      have hnone : contentAt w.shms i = none := hidx ▸ contentAt_claimIndex w.shms
      rw [hnone] at hi
      by_cases hv : o.valid = true
      · rw [if_pos hv] at hcontent
        have hnew : newlyMade w.shms w'.shms i = true := by
          rw [newlyMade, decide_eq_true_iff, validAt_iff_contentAt, validAt_iff_contentAt,
            hnone, hcontent]
          simp
        rw [hnew, hcontent]
        obtain ⟨hlist, hpend⟩ := ho hv
        refine ⟨by simp, hlist.trans ha, by simp [hpend], by simp⟩
      · rw [if_neg hv] at hcontent
        rw [newlyMade_same (hcontent.trans hnone.symm), hcontent]
        simpa using hi
    · rw [if_neg hidx] at hcontent
      rw [newlyMade_same hcontent, hcontent]
      simpa using hi

/-- The invariant after an event, part by part. -/
theorem ShmRun.Inv.of_step (h : r.Inv) (hw : r.world.step e = w) (hrunning : w.crashed = false)
    (hnodup : (w.tracees.map (·.pid)).Nodup) (hphase : ∀ c ∈ w.tracees, ShmPhase c)
    (hrecorded : (SysVIpc.recorded w.maps).Perm (r.attachedAfter e))
    (hpending : ∀ process idx, w.maps.countP (Pending process idx) =
      w.tracees.countP (Attaching process idx))
    (hslots : SlotsOk w (fun i => r.made i || newlyMade r.world.shms w.shms i)
      fun i => !newlyMade r.world.shms w.shms i && (r.marked i || decide (r.marks e = some i))) :
    (r.step e).Inv := by
  have hcrashed : ¬ r.world.crashed = true := by simp [h.running]
  rw [ShmRun.step, if_neg hcrashed, hw]
  exact ⟨hrunning, hnodup, hphase, hrecorded, hpending, hslots⟩

/-- Nothing is marked. -/
theorem SlotsOk.unmarked (h : SlotsOk w made marked) :
    SlotsOk w made fun i => marked i || decide (none = some i) := by
  intro i
  simpa using h i

/-- An event that changes neither segments nor mappings. -/
theorem ShmRun.Inv.of_quiet (h : r.Inv) (hw : r.world.step e = { r.world with tracees := tracees })
    (hnodup : (tracees.map (·.pid)).Nodup) (hphase : ∀ c ∈ tracees, ShmPhase c)
    (hpending : ∀ process idx, tracees.countP (Attaching process idx) =
      r.world.tracees.countP (Attaching process idx)) (hattached : r.attachedAfter e = r.attached)
    (hmarks : r.marks e = none) : (r.step e).Inv := by
  refine h.of_step hw h.running hnodup hphase (hattached ▸ h.recorded) ?_ ?_
  · intro process idx
    exact (h.pending process idx).trans (hpending process idx).symm
  · rw [hmarks]
    exact SlotsOk.ghost (fun _ => id) h.slots.unmarked

/-- A call that changes segments only, and ends with an answer. -/
theorem ShmRun.Inv.of_segments (h : r.Inv) {fromSigsys : Bool} {status : ℤ}
    {shms : List SysVIpcSharedMem} (hcaller : r.world.caller pid = some c) (hw : r.world.step e =
      { r.world with
        shms := shms
        tracees := updateTracee pid (syscallTail fromSigsys status) r.world.tracees })
    (hattached : r.attachedAfter e = r.attached) (hslots : SlotsOk { r.world with shms := shms }
      (fun i => r.made i || newlyMade r.world.shms shms i)
      fun i => !newlyMade r.world.shms shms i && (r.marked i || decide (r.marks e = some i))) :
    (r.step e).Inv := by
  refine h.of_step hw h.running ?_ (phase_tail h.nodup h.phase hcaller fromSigsys status)
    (hattached ▸ h.recorded) ?_ hslots
  · rw [map_pid_updateTracee (syscallTail_pid _ _)]
    exact h.nodup
  · intro process idx
    exact (h.pending process idx).trans (countP_tail process idx pid fromSigsys status _).symm

/-- A call that ends with an answer. -/
theorem ShmRun.Inv.of_answer (h : r.Inv) {fromSigsys : Bool} {status : ℤ}
    (hcaller : r.world.caller pid = some c) (hw : r.world.step e =
      { r.world with
        tracees := updateTracee pid (syscallTail fromSigsys status) r.world.tracees })
    (hattached : r.attachedAfter e = r.attached) (hmarks : r.marks e = none) : (r.step e).Inv := by
  refine h.of_segments hcaller hw hattached ?_
  rw [hmarks]
  exact SlotsOk.ghost (fun _ => id) h.slots.unmarked

theorem ShmRun.Inv.same (h : r.Inv) (hw : r.world.step e = r.world)
    (hattached : r.attachedAfter e = r.attached) (hmarks : r.marks e = none) : (r.step e).Inv :=
  h.of_quiet hw h.nodup h.phase (fun _ _ => rfl) hattached hmarks

section

variable {r : ShmRun} {pid : ℕ} {c : IpcTracee}

theorem step_call (h : r.Inv) (hcaller : r.world.caller pid = some c) (fromSigsys : Bool)
    (call : ShmCall) :
    r.world.step (.call pid fromSigsys call) =
      { (r.world.handle c call).1 with
        tracees := updateTracee pid (syscallTail fromSigsys (r.world.handle c call).2)
          (r.world.handle c call).1.tracees } := by
  simp only [ShmWorld.step, h.running, Bool.false_eq_true, if_false, hcaller]

theorem inv_shmget (h : r.Inv) (hcaller : r.world.caller pid = some c) (fromSigsys : Bool)
    (a : ShmgetArgs) (ha : a.allocates = true) :
    (r.step (.call pid fromSigsys (.shmget a))).Inv := by
  refine h.of_segments hcaller (step_call h hcaller fromSigsys _) rfl ?_
  exact slotsOk_shmget h.slots ha rfl rfl

/-- A `shmat` records a mapping, and its tracee starts its chain or waits for the helper. -/
theorem inv_shmat (h : r.Inv) (hcaller : r.world.caller pid = some c) (fromSigsys : Bool)
    (shmid : BitVec 32) (allocates : Bool) :
    (r.step (.call pid fromSigsys (.shmat shmid allocates))).Inv := by
  have hstep := step_call h hcaller fromSigsys (.shmat shmid allocates)
  simp only [ShmWorld.handle, ShmWorld.shmat] at hstep
  obtain ⟨hc, hpid, hs, hchain⟩ := caller_eq_some hcaller
  have hreason := (h.phase c hc).idle_of_caller hs
  cases hl : lookupIpcObject r.world.shms shmid with
  | none =>
    rw [hl] at hstep
    exact h.of_answer hcaller hstep rfl rfl
  | some idx =>
    obtain ⟨o, ho, hcontent⟩ := lookup_contentAt hl
    rw [hl] at hstep
    dsimp only at hstep
    by_cases hal : allocates = true
    · have hslot := h.slots idx
      rw [hcontent] at hslot
      have hlist : ¬ o.content.mappings = false := by rw [hslot.2.1]; decide
      rw [if_neg (not_not.2 hal), ho] at hstep
      dsimp only at hstep
      rw [if_neg hlist] at hstep
      dsimp only at hstep
      generalize decide (∃ d ∈ r.world.tracees, PastSocket d) = busy at hstep
      have hown (d : IpcTracee) : (shmatOwn idx busy d).pid = d.pid := by
        unfold shmatOwn
        split <;> rfl
      rw [hpid, updateTracee_updateTracee hown] at hstep
      have hpids (d : IpcTracee) :
          (syscallTail fromSigsys 0 (shmatOwn idx busy d)).pid = d.pid := by
        rw [syscallTail_pid, hown]
      refine h.of_step hstep h.running ?_ ?_ ?_ ?_ ?_
      · dsimp only
        rw [map_pid_updateTracee hpids]
        exact h.nodup
      · refine forall_mem_updateTracee.2 fun d hd => ?_
        split
        · rename_i hdpid
          rw [eq_of_pid h.nodup hd hc (hdpid.trans hpid.symm)]
          cases busy with
          | true =>
            refine .waiting (by rw [syscallTail_waitReason]; rfl) ?_ ?_
            · simp [syscallTail, shmatOwn, hchain]
            · cases fromSigsys <;> simp [syscallTail, shmatOwn, hchain]
          | false =>
            refine .chained (by rw [syscallTail_waitReason]; exact hreason) (.inl ?_)
            simp [syscallTail, shmatOwn]
        · exact h.phase d hd
      · dsimp only
        rw [recorded_cons_pending rfl]
        exact h.recorded
      · intro process i
        dsimp only
        rw [List.countP_cons, h.pending process i, ← hpid]
        have hcount := countP_updateTracee h.nodup hc
          (fun d => syscallTail fromSigsys 0 (shmatOwn idx busy d))
          (fun d => decide (Attaching process i d))
        have hbefore : decide (Attaching process i c) = false := by
          rw [decide_eq_false_iff_not]
          exact fun hat => not_underway hreason hchain hat.2.2
        have hafter : decide (Attaching process i
            (syscallTail fromSigsys 0 (shmatOwn idx busy c))) =
            decide (Pending process i ⟨c.process, idx, 0, 0⟩) := by
          rw [decide_eq_decide, Attaching, Pending, underway_syscallTail, syscallTail_process,
            syscallTail_waitingObjectIndex]
          have hunder : Underway (shmatOwn idx busy c) := by
            unfold shmatOwn
            split
            · exact .inr rfl
            · exact .inl (.inl rfl)
          unfold shmatOwn at hunder ⊢
          split <;> simp_all
        rw [hbefore, hafter] at hcount
        cases hp : decide (Pending process i ⟨c.process, idx, 0, 0⟩) <;>
          simp_all
      · refine SlotsOk.ghost (fun _ => id) (SlotsOk.unmarked ?_)
        intro i
        have hi := h.slots i
        dsimp only
        rw [attachedTo, List.countP_cons, ← attachedTo]
        cases hci : contentAt r.world.shms i with
        | some s =>
          rw [hci] at hi
          exact ⟨hi.1, hi.2.1, hi.2.2.1, fun hm => by have := hi.2.2.2 hm; omega⟩
        | none =>
          have hne : idx ≠ i := by
            rintro rfl
            rw [hcontent] at hci
            cases hci
          rw [hci] at hi
          simpa [hne] using hi
    · rw [if_pos hal] at hstep
      exact h.of_answer hcaller hstep rfl rfl

theorem marked_of_marks {r : ShmRun} (h : r.marks e = none) (hs : SlotsOk w r.made r.marked) :
    SlotsOk w r.made fun i => r.marked i || decide (r.marks e = some i) := by
  rw [h]
  exact hs.unmarked

/-- A `shmdt` of a complete mapping takes its record. -/
theorem inv_shmdt (h : r.Inv) (hcaller : r.world.caller pid = some c) (fromSigsys : Bool)
    (addr : UInt64)
    (hcond : ∀ m, (r.world.maps.find? fun m => m.process = c.process ∧ m.addr = addr) = some m →
      m.size ≠ 0) : (r.step (.call pid fromSigsys (.shmdt addr))).Inv := by
  have hstep := step_call h hcaller fromSigsys (.shmdt addr)
  obtain ⟨hc, hpid, hs, hchain⟩ := caller_eq_some hcaller
  have hreason := (h.phase c hc).idle_of_caller hs
  simp only [ShmWorld.handle, ShmWorld.shmdt] at hstep
  cases hf : r.world.maps.find? fun m => m.process = c.process ∧ m.addr = addr with
  | none =>
    rw [hf] at hstep
    refine h.of_answer hcaller hstep ?_ rfl
    simp only [ShmRun.attachedAfter, hcaller, hf]
  | some m =>
    rw [hf] at hstep
    dsimp only at hstep
    have hm : m ∈ r.world.maps := List.mem_of_find?_eq_some hf
    have hsize := hcond m hf
    have hsingle (d : IpcTracee) : ({ d with chainState := .single } : IpcTracee).pid = d.pid :=
      rfl
    rw [hpid, updateTracee_updateTracee hsingle] at hstep
    have hidle : (syscallTail fromSigsys 0 { c with chainState := .single }) =
        { c with chainState := .notChained } := by
      simp [syscallTail]
    refine h.of_step hstep ?_ ?_ ?_ ?_ ?_ ?_
    · dsimp only
      rw [releaseMap, crashed_settle]
      exact h.running
    · dsimp only
      rw [map_pid_updateTracee fun d => by rw [syscallTail_pid]]
      exact h.nodup
    · refine forall_mem_updateTracee.2 fun d hd => ?_
      split
      · rename_i hdpid
        rw [eq_of_pid h.nodup hd hc (hdpid.trans hpid.symm), hidle]
        exact .idle hreason rfl
      · exact h.phase d hd
    · dsimp only
      rw [releaseMap, maps_settle]
      simp only [ShmRun.attachedAfter, hcaller, hf]
      have hperm := recorded_perm (List.perm_cons_erase hm)
      rw [recorded_cons hsize] at hperm
      have hall := hperm.symm.trans h.recorded
      have herase := hall.erase (attachment m)
      rwa [List.erase_cons_head] at herase
    · intro process i
      dsimp only
      rw [releaseMap, maps_settle]
      dsimp only
      have hperm := (List.perm_cons_erase hm).countP_eq (Pending process i)
      rw [List.countP_cons_of_neg] at hperm
      · rw [← hperm, h.pending process i]
        refine (countP_updateTracee_congr fun d hd hdpid => ?_).symm
        rw [eq_of_pid h.nodup hd hc (hdpid.trans hpid.symm), hidle]
        exact attaching_congr rfl rfl
          (iff_of_false (not_underway hreason rfl) (not_underway hreason hchain))
      · simp [Pending, hsize]
    · refine SlotsOk.ghost (fun i => validAt_settle) (marked_of_marks rfl ?_)
      exact h.slots.releaseMap m

/-- Removing an object makes none. -/
theorem validAt_doRmid {objects : List SysVIpcSharedMem}
    (h : ValidAt (objects.modify idx doRmid) i) : ValidAt objects i := by
  rw [validAt_iff_contentAt] at h ⊢
  rw [contentAt_modify_invalid _ _ fun _ => rfl, Function.update_apply] at h
  split at h
  · obtain ⟨s, hs⟩ := h
    cases hs
  · exact h

theorem validAt_modifyContent {objects : List SysVIpcSharedMem}
    {f : SharedMemContent → SharedMemContent} (h : ValidAt (modifyContent objects idx f) i) :
    ValidAt objects i :=
  (validAt_modify (f := fun o => { o with content := f o.content }) objects idx
    (fun _ => rfl) i).1 h

/-- A change of one live segment, seen from the slots. -/
theorem SlotsOk.modify {marked' : ℕ → Bool} (h : SlotsOk w made marked)
    {content : Option SharedMemContent} (hmaps : w'.maps = w.maps)
    (hshms : contentAt w'.shms = Function.update (contentAt w.shms) idx content)
    (hother : ∀ i, i ≠ idx → marked' i = marked i)
    (hself : SlotOk content (made idx) (marked' idx) (attachedTo idx w.maps)) :
    SlotsOk w' made marked' := by
  intro i
  rw [hmaps, hshms, Function.update_apply]
  by_cases hi : i = idx
  · rw [if_pos hi, hi]
    exact hself
  · rw [if_neg hi, hother i hi]
    exact h i

/-- A `shmctl` marks a segment for removal, removes it, or answers. -/
theorem inv_shmctl (h : r.Inv) (hcaller : r.world.caller pid = some c) (fromSigsys : Bool)
    (a : ShmctlArgs) : (r.step (.call pid fromSigsys (.shmctl a))).Inv := by
  have hstep := step_call h hcaller fromSigsys (.shmctl a)
  have hne : r.world.caller pid ≠ none := by rw [hcaller]; nofun
  simp only [ShmWorld.handle, ShmWorld.shmctl] at hstep
  cases hl : lookupIpcObject r.world.shms a.shmid with
  | none =>
    rw [hl] at hstep
    refine h.of_answer hcaller hstep rfl ?_
    simp only [ShmRun.marks, hl, ite_self]
  | some idx =>
    obtain ⟨o, ho, hcontent⟩ := lookup_contentAt hl
    have hslot := h.slots idx
    rw [hcontent] at hslot
    obtain ⟨hmade, hlist, hmarked, hn⟩ := hslot
    have hlist' : ¬ o.content.mappings = false := by rw [hlist]; decide
    rw [hl] at hstep
    dsimp only at hstep
    rw [ho] at hstep
    dsimp only at hstep
    by_cases hrmid : a.cmd = IPC_RMID ∨ a.cmd = SYSVIPC_IPC_64
    · have hmarks : r.marks (.call pid fromSigsys (.shmctl a)) = some idx := by
        simp only [ShmRun.marks]
        rw [if_pos ⟨hne, hrmid⟩, hl]
      have hother : ∀ i, i ≠ idx →
          (r.marked i || decide (r.marks (.call pid fromSigsys (.shmctl a)) = some i)) =
            r.marked i := by
        intro i hi
        simp [hmarks, Ne.symm hi]
      rw [if_pos hrmid, if_neg hlist'] at hstep
      by_cases hzero : attachedTo idx r.world.maps = 0
      · rw [if_pos hzero] at hstep
        refine h.of_segments hcaller hstep rfl (SlotsOk.ghost (fun i => validAt_doRmid) ?_)
        refine h.slots.modify rfl
          (contentAt_modify_invalid _ _ fun _ => rfl) hother ⟨hzero, fun _ => ?_⟩
        simp [hmarks]
      · rw [if_neg hzero] at hstep
        refine h.of_segments hcaller hstep rfl (SlotsOk.ghost ?_ ?_)
        · intro i hv
          dsimp only at hv
          exact validAt_modifyContent hv
        refine h.slots.modify rfl
          (contentAt_modifyContent hcontent fun s => { s with rmidPending := true }) hother
          ⟨hmade, hlist, ?_, fun _ => hzero⟩
        simp [hmarks]
    · have hmarks : r.marks (.call pid fromSigsys (.shmctl a)) = none := by
        simp only [ShmRun.marks]
        rw [if_neg fun hx => hrmid hx.2]
      rw [if_neg hrmid] at hstep
      by_cases hstat : a.cmd = IPC_STAT
      · rw [if_pos hstat] at hstep
        refine h.of_segments hcaller hstep rfl
          (SlotsOk.ghost (fun _ => validAt_modifyContent) (marked_of_marks hmarks ?_))
        refine h.slots.modify rfl
          (contentAt_modifyContent hcontent (updateStats (attachedTo idx r.world.maps)))
          (fun _ _ => rfl) ?_
        rw [updateStats, if_pos hlist]
        exact ⟨hmade, hlist, hmarked, hn⟩
      · rw [if_neg hstat] at hstep
        exact h.of_answer hcaller hstep rfl hmarks

/-! ### Stops -/

theorem enterStop_pid (c : IpcTracee) : (ShmWorld.enterStop c).pid = c.pid := by
  unfold ShmWorld.enterStop
  split <;> rfl

theorem attaching_enterStop (process idx : ℕ) (c : IpcTracee) :
    decide (Attaching process idx (ShmWorld.enterStop c)) =
      decide (Attaching process idx c) := by
  unfold ShmWorld.enterStop
  split <;> rfl

theorem shmPhase_enterStop {c : IpcTracee} (h : ShmPhase c) : ShmPhase (ShmWorld.enterStop c) := by
  cases h with
  | idle hr hc =>
    unfold ShmWorld.enterStop
    split
    · exact .idle hr hc
    · exact .idle hr hc
    · exact .idle hr hc
  | waiting hr hc hs =>
    rcases hs with hs | hs
    · simp only [ShmWorld.enterStop, hs]
      exact .waiting hr hc (.inl hs)
    · simp only [ShmWorld.enterStop, hs]
      exact .waiting hr hc (.inl rfl)
  | chained hr hc =>
    unfold ShmWorld.enterStop
    split
    · exact .chained hr hc
    · exact .chained hr hc
    · exact .chained hr hc

theorem inv_enter (h : r.Inv) (pid : ℕ) : (r.step (.enter pid)).Inv := by
  have hstep : r.world.step (.enter pid) =
      { r.world with tracees := updateTracee pid ShmWorld.enterStop r.world.tracees } := by
    simp only [ShmWorld.step, h.running, Bool.false_eq_true, if_false]
  refine h.of_quiet hstep ?_ ?_ ?_ rfl rfl
  · exact (map_pid_updateTracee enterStop_pid).symm ▸ h.nodup
  · refine forall_mem_updateTracee.2 fun c hc => ?_
    split
    · exact shmPhase_enterStop (h.phase c hc)
    · exact h.phase c hc
  · intro process idx
    exact countP_updateTracee_congr fun c _ _ => attaching_enterStop process idx c

theorem exitStart_process (c : IpcTracee) : (exitStart c).process = c.process := by
  unfold exitStart
  split <;> rfl

/-- A stop that is neither the end of an interrupted wait nor in the chain. -/
theorem exitStart_phase {c : IpcTracee} (h : ShmPhase c)
    (hs : c.waitState = .enteredPpoll → c.waitReason ≠ .waitShmatHelperBusy) :
    ShmPhase (exitStart c) ∧ (Underway (exitStart c) ↔ Underway c) ∧
      (exitStart c).waitingObjectIndex = c.waitingObjectIndex := by
  unfold exitStart
  split
  case h_1 hen =>
    cases h with
    | idle hr hc =>
      exact ⟨.idle rfl hc, iff_of_false (not_underway rfl hc) (not_underway hr hc), rfl⟩
    | waiting hr => exact absurd hr (hs hen)
    | chained hr hc => exact ⟨.chained rfl hc, iff_of_true (.inl hc) (.inl hc), rfl⟩
  case h_4 => exact ⟨h, Iff.rfl, rfl⟩
  all_goals
    rename_i hst
    cases h with
    | idle hr hc => exact ⟨.idle hr hc, Iff.rfl, rfl⟩
    | waiting _ _ hin => rcases hin with hin | hin <;> rw [hst] at hin <;> cases hin
    | chained hr hc => exact ⟨.chained hr hc, Iff.rfl, rfl⟩

/-- What a stage of the chain that is not its last makes of its tracee. -/
theorem shmatStage_next {c c' : IpcTracee} (hc : InChain c) (h : shmatStage c s = .next c') :
    c'.pid = c.pid ∧ c'.process = c.process ∧
      c'.waitingObjectIndex = c.waitingObjectIndex ∧ c'.waitReason = c.waitReason ∧
      c'.waitState = c.waitState ∧ InChain c' := by
  rcases hc with hc | hc | hc | hc
  · simp only [shmatStage, hc] at h
    split at h
    · cases h
    · cases h
      exact ⟨rfl, rfl, rfl, rfl, rfl, .inr (.inl rfl)⟩
  · simp only [shmatStage, hc] at h
    split at h
    · cases h
    · cases h
      exact ⟨rfl, rfl, rfl, rfl, rfl, .inr (.inr (.inl rfl))⟩
  · simp only [shmatStage, hc] at h
    split at h
    · cases h
    · split at h
      · cases h
      · split at h
        · cases h
        · cases h
          exact ⟨rfl, rfl, rfl, rfl, rfl, .inr (.inr (.inr rfl))⟩
  · simp only [shmatStage, hc] at h
    split at h <;> cases h

/-- Only the last stage attaches. -/
theorem shmatStage_attached {c : IpcTracee} (hc : InChain c) (h : shmatStage c s = .attached) :
    c.chainState = .shmatMmap ∧ s.result ≠ -1 := by
  rcases hc with hc | hc | hc | hc
  · simp only [shmatStage, hc] at h
    split at h <;> cases h
  · simp only [shmatStage, hc] at h
    split at h <;> cases h
  · simp only [shmatStage, hc] at h
    split at h
    · cases h
    · split at h
      · cases h
      · split at h <;> cases h
  · simp only [shmatStage, hc] at h
    split at h
    · cases h
    · rename_i hne
      exact ⟨hc, hne⟩

/-- The last stage fails on -1 only. -/
theorem shmatStage_not_attached {c : IpcTracee} (hc : c.chainState = .shmatMmap)
    (h : shmatStage c s ≠ .attached) : s.result = -1 := by
  by_contra hne
  apply h
  simp only [shmatStage, hc]
  rw [if_neg hne]

theorem map_pid_leaveChain (pid : ℕ) (tracees : List IpcTracee) :
    (ShmWorld.leaveChain pid tracees).map (·.pid) = tracees.map (·.pid) := by
  rw [ShmWorld.leaveChain, map_pid_wakePendingShmat]
  exact map_pid_updateTracee fun _ => rfl

/-- The end of a chain leaves everyone in a phase. -/
theorem phase_leaveChain (h : r.Inv) (hc : c ∈ r.world.tracees) (hchain : InChain c) :
    ∀ d ∈ ShmWorld.leaveChain c.pid r.world.tracees, ShmPhase d := by
  have hleft : ∀ d ∈ updateTracee c.pid (fun c => { c with chainState := .notChained })
      r.world.tracees, ShmPhase d := by
    refine forall_mem_updateTracee.2 fun d hd => ?_
    split
    · rename_i hpid
      rw [eq_of_pid h.nodup hd hc hpid]
      cases h.phase c hc with
      | idle _ hno => exact absurd hchain (not_inChain_of_notChained hno)
      | waiting _ hno => exact absurd hchain (not_inChain_of_notChained hno)
      | chained hr _ => exact .idle hr rfl
    · exact h.phase d hd
  intro d hd
  rcases mem_wakePendingShmat hd with hd | ⟨c', -, -, rfl⟩
  · exact hleft d hd
  · exact .chained rfl (.inl rfl)

/-- The tracee that leaves its chain has no `shmat` under way any more. -/
theorem countP_leaveChain (h : r.Inv) (hc : c ∈ r.world.tracees) (hchain : InChain c)
    (process idx : ℕ) :
    (ShmWorld.leaveChain c.pid r.world.tracees).countP (Attaching process idx) +
        (decide (c.process = process ∧ c.waitingObjectIndex = idx)).toNat =
      r.world.tracees.countP (Attaching process idx) := by
  rw [ShmWorld.leaveChain, countP_wakePendingShmat]
  have hcount := countP_updateTracee h.nodup hc (fun c => { c with chainState := .notChained })
    (fun c => decide (Attaching process idx c))
  have hreason : c.waitReason = .notWaiting := by
    cases h.phase c hc with
    | idle hr => exact hr
    | waiting _ hno => exact absurd hchain (not_inChain_of_notChained hno)
    | chained hr => exact hr
  have hafter : decide (Attaching process idx { c with chainState := .notChained }) = false := by
    rw [decide_eq_false_iff_not]
    intro hat
    have hleft : ({ c with chainState := .notChained } : IpcTracee).waitReason = .notWaiting :=
      hreason
    exact not_underway hleft rfl hat.2.2
  have hbefore : decide (Attaching process idx c) =
      decide (c.process = process ∧ c.waitingObjectIndex = idx) := by
    rw [decide_eq_decide, Attaching]
    exact ⟨fun hat => ⟨hat.1, hat.2.1⟩, fun hat => ⟨hat.1, hat.2, .inl hchain⟩⟩
  rw [hafter, hbefore] at hcount
  simpa using hcount

/-- The record of a `shmat` under way. -/
theorem pendingMap_eq_some (h : r.Inv) (hc : c ∈ r.world.tracees) (hunder : Underway c) :
    ∃ m, r.world.pendingMap c = some m ∧ m ∈ r.world.maps ∧
      Pending c.process c.waitingObjectIndex m := by
  have hpos : 0 < r.world.maps.countP (Pending c.process c.waitingObjectIndex) := by
    rw [h.pending]
    exact List.countP_pos_iff.2 ⟨c, hc, by simp [Attaching, hunder]⟩
  obtain ⟨m, hm, hpend⟩ := List.countP_pos_iff.1 hpos
  rw [decide_eq_true_eq] at hpend
  cases hf : r.world.pendingMap c with
  | none =>
    rw [ShmWorld.pendingMap, List.find?_eq_none] at hf
    have := hf m hm
    simp [hpend.1, hpend.2.1, hpend.2.2] at this
  | some m' =>
    have hp := List.find?_some hf
    simp only [decide_eq_true_eq] at hp
    exact ⟨m', rfl, List.mem_of_find?_eq_some hf, hp.1, hp.2.2, hp.2.1⟩

/-- The step of a stage. -/
theorem step_stage (h : r.Inv) (hf : r.world.tracees.find? (·.pid = pid) = some c)
    (hs : c.waitState = .notWaiting) (hchain : InChain c) :
    ∃ m, m ∈ r.world.maps ∧ Pending c.process c.waitingObjectIndex m ∧
      r.world.step (.leave pid s) =
        match shmatStage c s with
        | .next c' =>
          { r.world with tracees := updateTracee c.pid (fun _ => c') r.world.tracees }
        | .attached =>
          { r.world with
            maps := r.world.maps.replace m { m with addr := s.result, size := s.sysarg2 }
            tracees := ShmWorld.leaveChain c.pid r.world.tracees }
        | .failed =>
          { releaseMap r.world m with
            tracees := ShmWorld.leaveChain c.pid r.world.tracees } := by
  have hc : c ∈ r.world.tracees := (find_pid_eq_some hf).1
  obtain ⟨m, hfind, hm, hpend⟩ := pendingMap_eq_some h hc (.inl hchain)
  refine ⟨m, hm, hpend, ?_⟩
  obtain ⟨o, ho, hv⟩ := hpend.2.1 ▸ h.slots.validAt hm
  have hvalid : ¬ o.valid = false := by rw [hv]; decide
  simp only [ShmWorld.step, h.running, Bool.false_eq_true, if_false, hf, hs, if_true,
    if_pos hchain, ShmWorld.shmatChain, ho, if_neg hvalid]
  cases shmatStage c s <;> simp only [hfind]

/-- A stage of the chain. -/
theorem inv_stage (h : r.Inv) (hf : r.world.tracees.find? (·.pid = pid) = some c)
    (hs : c.waitState = .notWaiting) (hchain : InChain c)
    (hcond : c.chainState = .shmatMmap → s.result = -1 ∨ (¬ IsErrorResult s.result ∧ s.sysarg2 ≠ 0))
      : (r.step (.leave pid s)).Inv := by
  obtain ⟨hc, hpid⟩ := find_pid_eq_some hf
  obtain ⟨m, hm, hpend, hstep⟩ := step_stage (s := s) h hf hs hchain
  have hperm := List.perm_cons_erase hm
  have hdrop (process idx : ℕ) :
      (r.world.maps.erase m).countP (Pending process idx) =
        (ShmWorld.leaveChain c.pid r.world.tracees).countP (Attaching process idx) := by
    have hcount := countP_leaveChain h hc hchain process idx
    have hmaps := hperm.countP_eq (Pending process idx)
    rw [List.countP_cons, h.pending process idx] at hmaps
    have hsame : decide (Pending process idx m) =
        decide (c.process = process ∧ c.waitingObjectIndex = idx) := by
      rw [decide_eq_decide, Pending, hpend.1, hpend.2.1]
      exact ⟨fun hx => ⟨hx.1, hx.2.1⟩, fun hx => ⟨hx.1, hx.2, hpend.2.2⟩⟩
    rw [hsame] at hmaps
    cases hb : decide (c.process = process ∧ c.waitingObjectIndex = idx) <;>
      rw [hb] at hcount hmaps <;> simp at hcount hmaps <;> omega
  have hfailed : shmatStage c s ≠ .attached →
      ¬ (c.chainState = .shmatMmap ∧ ¬ IsErrorResult s.result) := by
    rintro hnot ⟨hmm, hok⟩
    rw [shmatStage_not_attached hmm hnot] at hok
    exact hok (by decide)
  have hold := recorded_perm hperm
  rw [recorded_cons_pending hpend.2.2] at hold
  cases hstage : shmatStage c s with
  | next c' =>
    rw [hstage] at hstep
    obtain ⟨hpid', hproc, hidx, hr, -, hch⟩ := shmatStage_next hchain hstage
    have hno := hfailed (by rw [hstage]; nofun)
    refine h.of_quiet hstep ?_ ?_ ?_ ?_ rfl
    · rw [map_pid_updateTracee_of fun d _ _ => hpid']
      exact h.nodup
    · refine forall_mem_updateTracee.2 fun d hd => ?_
      split
      · refine .chained ?_ hch
        rw [hr]
        cases h.phase c hc with
        | idle hr => exact hr
        | waiting _ hno' => exact absurd hchain (not_inChain_of_notChained hno')
        | chained hr => exact hr
      · exact h.phase d hd
    · intro process idx
      refine countP_updateTracee_congr fun d hd hdpid => ?_
      rw [eq_of_pid h.nodup hd hc hdpid]
      exact attaching_congr hproc hidx (iff_of_true (.inl hch) (.inl hchain))
    · simp only [ShmRun.attachedAfter, hf]
      exact if_neg fun hx => hno hx.2
  | attached =>
    rw [hstage] at hstep
    obtain ⟨hmm, hres⟩ := shmatStage_attached hchain hstage
    obtain ⟨hok, hsize⟩ := (hcond hmm).resolve_left hres
    have hreplace := perm_replace hm { m with addr := s.result, size := s.sysarg2 }
    have hcomplete : ({ m with addr := s.result, size := s.sysarg2 } :
        SysVIpcSharedMemMap).size ≠ 0 := hsize
    refine h.of_step hstep h.running ?_ (phase_leaveChain h hc hchain) ?_ ?_ ?_
    · exact (map_pid_leaveChain c.pid r.world.tracees).symm ▸ h.nodup
    · simp only [ShmRun.attachedAfter, hf]
      rw [if_pos ⟨hs, hmm, hok⟩]
      refine (recorded_perm hreplace).trans ?_
      rw [recorded_cons hcomplete]
      have hhead : attachment { m with addr := s.result, size := s.sysarg2 } =
          ⟨c.process, c.waitingObjectIndex, s.result⟩ := by
        rw [attachment, hpend.1, hpend.2.1]
      rw [hhead]
      exact (hold.symm.trans h.recorded).cons _
    · intro process idx
      dsimp only
      rw [hreplace.countP_eq, List.countP_cons_of_neg]
      · exact hdrop process idx
      · simp [Pending, hsize]
    · refine SlotsOk.ghost (fun _ => id) (SlotsOk.unmarked ?_)
      intro i
      have hsame : attachedTo i (r.world.maps.replace m
          { m with addr := s.result, size := s.sysarg2 }) = attachedTo i r.world.maps := by
        rw [attachedTo, hreplace.countP_eq, attachedTo, hperm.countP_eq, List.countP_cons,
          List.countP_cons]
      dsimp only
      rw [hsame]
      exact h.slots i
  | failed =>
    rw [hstage] at hstep
    have hno := hfailed (by rw [hstage]; nofun)
    refine h.of_step hstep ?_ ?_ (phase_leaveChain h hc hchain) ?_ ?_ ?_
    · dsimp only
      rw [releaseMap, crashed_settle]
      exact h.running
    · exact (map_pid_leaveChain c.pid r.world.tracees).symm ▸ h.nodup
    · dsimp only
      rw [releaseMap, maps_settle]
      simp only [ShmRun.attachedAfter, hf]
      rw [if_neg fun hx => hno hx.2]
      exact hold.symm.trans h.recorded
    · intro process idx
      dsimp only
      rw [releaseMap, maps_settle]
      exact hdrop process idx
    · refine SlotsOk.ghost (fun i => validAt_settle) (SlotsOk.unmarked ?_)
      exact h.slots.releaseMap m

/-- A stop at the end of a call. -/
theorem inv_leave (h : r.Inv) (s : ShmatStop) (hcond : KeepsAccount r (.leave pid s)) :
    (r.step (.leave pid s)).Inv := by
  cases hf : r.world.tracees.find? (·.pid = pid) with
  | none =>
    refine h.same ?_ ?_ rfl
    · simp only [ShmWorld.step, h.running, Bool.false_eq_true, if_false, hf]
    · simp only [ShmRun.attachedAfter, hf]
  | some c =>
    obtain ⟨hc, hpid⟩ := find_pid_eq_some hf
    obtain ⟨hwait, hmmap⟩ := hcond c hf
    by_cases hs : c.waitState = .notWaiting
    · by_cases hchain : InChain c
      · exact inv_stage h hf hs hchain (hmmap hs)
      · refine h.same ?_ ?_ rfl
        · simp only [ShmWorld.step, h.running, Bool.false_eq_true, if_false, hf, hs, if_true,
            if_neg hchain]
        · simp only [ShmRun.attachedAfter, hf]
          exact if_neg fun hx => hchain (.inr (.inr (.inr hx.2.1)))
    · have hstep : r.world.step (.leave pid s) =
          { r.world with tracees := updateTracee pid exitStart r.world.tracees } := by
        simp only [ShmWorld.step, h.running, Bool.false_eq_true, if_false, hf, if_neg hs]
      have hphase := exitStart_phase (h.phase c hc) hwait
      refine h.of_quiet hstep ?_ ?_ ?_ ?_ rfl
      · exact (map_pid_updateTracee exitStart_pid).symm ▸ h.nodup
      · refine forall_mem_updateTracee.2 fun d hd => ?_
        split
        · rename_i hdpid
          rw [eq_of_pid h.nodup hd hc (hdpid.trans hpid.symm)]
          exact hphase.1
        · exact h.phase d hd
      · intro process idx
        refine countP_updateTracee_congr fun d hd hdpid => ?_
        rw [eq_of_pid h.nodup hd hc (hdpid.trans hpid.symm)]
        exact attaching_congr (exitStart_process c) hphase.2.2 hphase.2.1
      · simp only [ShmRun.attachedAfter, hf]
        exact if_neg fun hx => hs hx.1

/-! ### Processes -/

/-- A process without a `shmat` under way has only complete mappings. -/
theorem size_ne_zero (h : r.Inv)
    (hunder : ∀ d ∈ r.world.tracees, d.process = process → ¬ Underway d) (hm : m ∈ r.world.maps)
    (hp : m.process = process) : m.size ≠ 0 := by
  intro hsize
  have hpos : 0 < r.world.maps.countP (Pending process m.shmIndex) :=
    List.countP_pos_iff.2 ⟨m, hm, by simp [Pending, hp, hsize]⟩
  rw [h.pending] at hpos
  obtain ⟨d, hd, hat⟩ := List.countP_pos_iff.1 hpos
  rw [decide_eq_true_eq] at hat
  exact hunder d hd hat.1 hat.2.2

/-- The records of the copies that a fork makes. -/
theorem recorded_copies (maps : List SysVIpcSharedMemMap) (parent child : ℕ) :
    recorded ((maps.filter (·.process = parent)).map fun m => { m with process := child }) =
      ((recorded maps).filter (·.process = parent)).map fun a => { a with process := child } := by
  induction maps with
  | nil => rfl
  | cons m ms ih =>
    by_cases hp : m.process = parent <;> by_cases hs : m.size = 0
    · have hcopy : ({ m with process := child } : SysVIpcSharedMemMap).size = 0 := hs
      rw [List.filter_cons_of_pos (by simpa using hp), List.map_cons,
        recorded_cons_pending hcopy, recorded_cons_pending hs, ih]
    · have hcopy : ({ m with process := child } : SysVIpcSharedMemMap).size ≠ 0 := hs
      rw [List.filter_cons_of_pos (by simpa using hp), List.map_cons, recorded_cons hcopy,
        recorded_cons hs, List.filter_cons_of_pos (by simp [attachment, hp]),
        List.map_cons, ih]
      rfl
    · rw [List.filter_cons_of_neg (by simpa using hp), recorded_cons_pending hs, ih]
    · rw [List.filter_cons_of_neg (by simpa using hp), recorded_cons hs,
        List.filter_cons_of_neg (by simp [attachment, hp]), ih]

theorem recorded_append (maps maps' : List SysVIpcSharedMemMap) :
    recorded (maps ++ maps') = recorded maps ++ recorded maps' := by
  rw [recorded, List.filter_append, List.map_append]
  rfl

/-- The segments of the copies are attached already. -/
theorem attachedTo_copies (maps : List SysVIpcSharedMemMap) (parent child i : ℕ) :
    attachedTo i ((maps.filter (·.process = parent)).map fun m => { m with process := child }) ≤
      attachedTo i maps := by
  rw [attachedTo, List.countP_map, attachedTo]
  exact List.Sublist.countP_le List.filter_sublist

/-- The mappings that a fork copies. -/
theorem SlotsOk.inheritMaps (h : SlotsOk w made marked) {parent child : ℕ} {copied : List Bool}
    (hcopied : ∀ b ∈ copied, b = true) (hshms : w'.shms = w.shms)
    (hmaps : w'.maps = SysVIpc.inheritMaps parent child copied w.maps) :
    SlotsOk w' made marked := by
  intro i
  have hi := h i
  have hcount : attachedTo i w'.maps = attachedTo i w.maps + attachedTo i
      ((w.maps.filter (·.process = parent)).map fun m => { m with process := child }) := by
    rw [hmaps, attachedTo, (perm_inheritMaps parent child hcopied w.maps).countP_eq,
      List.countP_append]
    rfl
  have hle := attachedTo_copies w.maps parent child i
  rw [hshms]
  cases hc : contentAt w.shms i with
  | none =>
    rw [hc] at hi
    exact ⟨by have := hi.1; omega, hi.2⟩
  | some s =>
    rw [hc] at hi
    exact ⟨hi.1, hi.2.1, hi.2.2.1, fun hm => by have := hi.2.2.2 hm; omega⟩

theorem countP_fresh (process idx pid p : ℕ) (tracees : List IpcTracee) :
    (IpcTracee.fresh pid p :: tracees).countP (Attaching process idx) =
      tracees.countP (Attaching process idx) := by
  refine List.countP_cons_of_neg ?_
  rw [decide_eq_true_eq]
  exact fun hat => not_underway rfl rfl hat.2.2

/-- A new tracee, with the mappings of its process or with copies of them. -/
theorem inv_clone (h : r.Inv) (parent child : ℕ) (thread : Bool) (copied : List Bool)
    (hcond : KeepsAccount r (.clone parent child thread copied)) :
    (r.step (.clone parent child thread copied)).Inv := by
  cases hf : r.world.tracees.find? (·.pid = parent) with
  | none =>
    refine h.same ?_ ?_ rfl
    · simp only [ShmWorld.step, h.running, Bool.false_eq_true, if_false, hf]
    · simp only [ShmRun.attachedAfter, hf]
  | some p =>
    by_cases hchild : child ∈ r.world.tracees.map (·.pid) ∨
        child ∈ r.world.tracees.map (·.process)
    · refine h.same ?_ ?_ rfl
      · simp only [ShmWorld.step, h.running, Bool.false_eq_true, if_false, hf, if_pos hchild]
      · simp only [ShmRun.attachedAfter, hf, if_pos hchild]
    have hstep : r.world.step (.clone parent child thread copied) =
        { r.world with
          maps := if thread then r.world.maps
            else inheritMaps p.process child copied r.world.maps
          tracees := IpcTracee.fresh child (if thread then p.process else child) ::
            r.world.tracees } := by
      simp only [ShmWorld.step, h.running, Bool.false_eq_true, if_false, hf, if_neg hchild,
        cloneTracee, if_neg fun hx => hchild (.inl hx)]
    have hnodup : ((IpcTracee.fresh child (if thread then p.process else child) ::
        r.world.tracees).map (·.pid)).Nodup :=
      List.nodup_cons.2 ⟨fun hx => hchild (.inl hx), h.nodup⟩
    have hphase : ∀ d ∈ IpcTracee.fresh child (if thread then p.process else child) ::
        r.world.tracees, ShmPhase d := by
      intro d hd
      rcases List.mem_cons.1 hd with rfl | hd
      · exact .idle rfl rfl
      · exact h.phase d hd
    cases thread with
    | true =>
      refine h.of_quiet hstep hnodup hphase ?_ ?_ rfl
      · exact fun process idx => countP_fresh process idx child _ _
      · simp only [ShmRun.attachedAfter, hf, if_neg hchild, if_true]
    | false =>
      obtain ⟨hcopied, hunder⟩ := hcond rfl
      have hperm := perm_inheritMaps p.process child hcopied r.world.maps
      refine h.of_step hstep h.running hnodup hphase ?_ ?_ ?_
      · simp only [ShmRun.attachedAfter, hf, if_neg hchild, Bool.false_eq_true, if_false]
        refine (recorded_perm hperm).trans ?_
        rw [recorded_append, recorded_copies]
        exact h.recorded.append ((h.recorded.filter _).map _)
      · intro process idx
        dsimp only
        rw [countP_fresh, ← h.pending process idx, if_neg Bool.false_ne_true, hperm.countP_eq,
          List.countP_append, Nat.add_eq_left, List.countP_eq_zero]
        intro m hm hpend
        obtain ⟨m', hm', rfl⟩ := List.mem_map.1 hm
        rw [List.mem_filter, decide_eq_true_eq] at hm'
        rw [decide_eq_true_eq] at hpend
        exact size_ne_zero h (hunder p hf) hm'.1 hm'.2 hpend.2.2
      · refine SlotsOk.ghost (fun _ => id) (SlotsOk.unmarked ?_)
        exact h.slots.inheritMaps hcopied rfl rfl

/-- The mappings of a process that has no `shmat` under way go with it. -/
theorem pending_removeMappings (h : r.Inv)
    (hunder : ∀ d ∈ r.world.tracees, d.process = process → ¬ Underway d) (q idx : ℕ) :
    (removeMappings r.world process).maps.countP (Pending q idx) =
      r.world.tracees.countP (Attaching q idx) := by
  rw [(perm_removeMappings r.world process).countP_eq, List.countP_filter,
    ← h.pending q idx]
  refine List.countP_congr fun m hm => ?_
  have hne : Pending q idx m → m.process ≠ process := fun hpend hp =>
    size_ne_zero h hunder hm hp hpend.2.2
  simp only [Bool.and_eq_true, decide_eq_true_eq]
  exact ⟨And.left, fun hpend => ⟨hpend, hne hpend⟩⟩

theorem recorded_removeMappings {attached : List Attachment}
    (h : (SysVIpc.recorded w.maps).Perm attached) (process : ℕ) :
    (SysVIpc.recorded (removeMappings w process).maps).Perm
      (attached.filter (·.process ≠ process)) := by
  refine (recorded_perm (perm_removeMappings w process)).trans ?_
  rw [recorded_filter_process]
  exact h.filter _

/-- A successful `execve`, or one in a process without mappings. -/
theorem inv_execve (h : r.Inv) (succeeds : Bool)
    (hcond : KeepsAccount r (.execve pid succeeds)) : (r.step (.execve pid succeeds)).Inv := by
  cases hcaller : r.world.caller pid with
  | none =>
    refine h.same ?_ ?_ rfl
    · simp only [ShmWorld.step, h.running, Bool.false_eq_true, if_false, hcaller]
    · simp only [ShmRun.attachedAfter, hcaller]
  | some c =>
    have hstep : r.world.step (.execve pid succeeds) = removeMappings r.world c.process := by
      simp only [ShmWorld.step, h.running, Bool.false_eq_true, if_false, hcaller]
    rcases hcond c hcaller with hnone | ⟨rfl, hunder⟩
    · have hempty : r.world.maps.filter (·.process = c.process) = [] := by
        rw [List.filter_eq_nil_iff]
        intro m hm
        simpa using hnone m hm
      have hsame : removeMappings r.world c.process = r.world := by
        rw [removeMappings, hempty]
        rfl
      have hattached : r.attachedAfter (.execve pid succeeds) = r.attached := by
        simp only [ShmRun.attachedAfter, hcaller]
        split
        · rw [List.filter_eq_self]
          intro a ha
          obtain ⟨m, hm, rfl⟩ := List.mem_map.1 (h.recorded.mem_iff.2 ha)
          have hne := hnone m (List.mem_of_mem_filter hm)
          simp [attachment, hne]
        · rfl
      exact h.same (hstep.trans hsame) hattached rfl
    · have htracees : (removeMappings r.world c.process).tracees = r.world.tracees :=
        (foldl_releaseMap _ r.world).2.1
      refine h.of_step hstep ?_ ?_ ?_ ?_ ?_ ?_
      · exact (foldl_releaseMap _ r.world).2.2.trans h.running
      · exact htracees.symm ▸ h.nodup
      · exact htracees.symm ▸ h.phase
      · simp only [ShmRun.attachedAfter, hcaller, if_true]
        exact recorded_removeMappings h.recorded c.process
      · intro q idx
        rw [htracees]
        exact pending_removeMappings h hunder q idx
      · refine SlotsOk.ghost (fun i => validAt_foldl_releaseMap) (SlotsOk.unmarked ?_)
        exact h.slots.foldl_releaseMap _

/-- The end of a tracee, seen from the `shmat`s under way. -/
theorem countP_dropTracee (hq : ∀ d ∈ tracees, d.pid = pid → q d = false) :
    (dropTracee pid tracees).countP q = tracees.countP q := by
  rw [dropTracee, List.countP_filter]
  refine List.countP_congr fun d hd => ?_
  by_cases hpid : d.pid = pid
  · simp [hq d hd hpid]
  · simp [hpid]

/-- A process that has lost its last tracee loses its mappings. -/
theorem pending_exit (h : r.Inv) (hc : c ∈ r.world.tracees) (hmaps : w.maps = r.world.maps)
    (hlast : ∀ d ∈ dropTracee c.pid r.world.tracees, d.process ≠ c.process) (q idx : ℕ) :
    (removeMappings w c.process).maps.countP (Pending q idx) =
      (dropTracee c.pid r.world.tracees).countP (Attaching q idx) := by
  rw [(perm_removeMappings w c.process).countP_eq, hmaps, List.countP_filter]
  by_cases hq : q = c.process
  · have hgone : (dropTracee c.pid r.world.tracees).countP (Attaching q idx) = 0 := by
      rw [List.countP_eq_zero]
      intro d hd hat
      rw [decide_eq_true_eq] at hat
      exact hlast d hd (hat.1.trans hq)
    rw [hgone, List.countP_eq_zero]
    intro m _ hpend
    simp only [Bool.and_eq_true, decide_eq_true_eq] at hpend
    exact hpend.2 (hpend.1.1.trans hq)
  · rw [countP_dropTracee, ← h.pending q idx]
    · refine List.countP_congr fun m _ => ?_
      simp only [Bool.and_eq_true, decide_eq_true_eq]
      refine ⟨And.left, fun hpend => ⟨hpend, fun hp => hq ?_⟩⟩
      exact hpend.1.symm.trans hp
    · intro d hd hpid
      rw [eq_of_pid h.nodup hd hc hpid, decide_eq_false_iff_not]
      exact fun hat => hq hat.1.symm

/-- The end of a tracee. -/
theorem inv_exit (h : r.Inv) (hcond : KeepsAccount r (.exit pid)) : (r.step (.exit pid)).Inv := by
  cases hf : r.world.tracees.find? (·.pid = pid) with
  | none =>
    refine h.same ?_ ?_ rfl
    · simp only [ShmWorld.step, h.running, Bool.false_eq_true, if_false, hf]
    · simp only [ShmRun.attachedAfter, hf]
  | some c =>
    obtain ⟨hc, rfl⟩ := find_pid_eq_some hf
    have hnodup : ((dropTracee c.pid r.world.tracees).map (·.pid)).Nodup :=
      nodup_dropTracee h.nodup
    have hphase : ∀ d ∈ dropTracee c.pid r.world.tracees, ShmPhase d :=
      fun d hd => h.phase d (mem_dropTracee hd)
    by_cases hothers : ∃ d ∈ dropTracee c.pid r.world.tracees, d.process = c.process
    · have hstep : r.world.step (.exit c.pid) =
          { r.world with tracees := dropTracee c.pid r.world.tracees } := by
        simp only [ShmWorld.step, h.running, Bool.false_eq_true, if_false, hf,
          ShmWorld.endProcess, if_pos hothers]
      have hidle : ¬ Underway c := by
        intro hunder
        obtain ⟨d, hd, hp⟩ := hothers
        rw [dropTracee, List.mem_filter, decide_eq_true_eq] at hd
        exact hcond c hf hunder d hd.1 hd.2 hp
      refine h.of_quiet hstep hnodup hphase ?_ ?_ rfl
      · intro process idx
        refine countP_dropTracee fun d hd hpid => ?_
        rw [eq_of_pid h.nodup hd hc hpid, decide_eq_false_iff_not]
        exact fun hat => hidle hat.2.2
      · simp only [ShmRun.attachedAfter, hf, if_pos hothers]
    · have hstep : r.world.step (.exit c.pid) =
          removeMappings { r.world with tracees := dropTracee c.pid r.world.tracees }
            c.process := by
        simp only [ShmWorld.step, h.running, Bool.false_eq_true, if_false, hf,
          ShmWorld.endProcess, if_neg hothers]
      have hkept := foldl_releaseMap
        (r.world.maps.filter (·.process = c.process))
        { r.world with tracees := dropTracee c.pid r.world.tracees }
      have htracees : (removeMappings
          { r.world with tracees := dropTracee c.pid r.world.tracees } c.process).tracees =
          dropTracee c.pid r.world.tracees := hkept.2.1
      have hlast : ∀ d ∈ dropTracee c.pid r.world.tracees, d.process ≠ c.process :=
        fun d hd hp => hothers ⟨d, hd, hp⟩
      refine h.of_step hstep ?_ ?_ ?_ ?_ ?_ ?_
      · exact hkept.2.2.trans h.running
      · exact htracees.symm ▸ hnodup
      · exact htracees.symm ▸ hphase
      · simp only [ShmRun.attachedAfter, hf, if_neg hothers]
        exact recorded_removeMappings
          (w := { r.world with tracees := dropTracee c.pid r.world.tracees }) h.recorded
          c.process
      · intro q idx
        rw [htracees]
        exact pending_exit
          (w := { r.world with tracees := dropTracee c.pid r.world.tracees }) h hc rfl hlast q idx
      · refine SlotsOk.ghost (fun i => validAt_foldl_releaseMap) (SlotsOk.unmarked ?_)
        refine SlotsOk.foldl_releaseMap _ ?_
        exact h.slots

/-- One event that keeps the account. -/
theorem ShmRun.Inv.step (h : r.Inv) (hcond : KeepsAccount r e) : (r.step e).Inv := by
  cases e with
  | call pid fromSigsys call =>
    cases hcaller : r.world.caller pid with
    | none =>
      refine h.same ?_ ?_ ?_
      · simp only [ShmWorld.step, h.running, Bool.false_eq_true, if_false, hcaller]
      · cases call <;> simp only [ShmRun.attachedAfter, hcaller]
      · cases call <;> simp [ShmRun.marks, hcaller]
    | some c =>
      cases call with
      | shmget a => exact inv_shmget h hcaller fromSigsys a hcond
      | shmat shmid allocates => exact inv_shmat h hcaller fromSigsys shmid allocates
      | shmdt addr => exact inv_shmdt h hcaller fromSigsys addr (hcond c hcaller)
      | shmctl a => exact inv_shmctl h hcaller fromSigsys a
  | enter pid => exact inv_enter h pid
  | leave pid s => exact inv_leave h s hcond
  | clone parent child thread copied => exact inv_clone h parent child thread copied hcond
  | execve pid succeeds => exact inv_execve h succeeds hcond
  | exit pid => exact inv_exit h hcond

end

theorem ShmRun.inv_initial (pid : ℕ) : (ShmRun.initial pid).Inv where
  running := rfl
  nodup := List.nodup_singleton pid
  phase c hc := by
    rw [List.mem_singleton.1 hc]
    exact .idle rfl rfl
  recorded := .refl _
  pending process idx := by
    have hidle : ¬ Attaching process idx (IpcTracee.fresh pid pid) :=
      fun hat => not_underway rfl rfl hat.2.2
    refine (List.countP_eq_zero.2 fun c hc => ?_).symm
    rw [List.mem_singleton.1 hc, decide_eq_true_eq]
    exact hidle
  slots _ := ⟨rfl, nofun⟩

/-- A `shmget` that finds memory and fails leaves the live segments as they are. -/
theorem contentAt_shmget_error (objects : List SysVIpcSharedMem) {a : ShmgetArgs}
    (ha : a.allocates = true) {errno : ℤ} (h : (shmget objects a).2 = .error errno) (i : ℕ) :
    contentAt (shmget objects a).1 i = contentAt objects i := by
  unfold shmget at h ⊢
  rw [if_pos ha] at h
  split
  · split_ifs
    · rfl
    · split
      · rfl
      · split_ifs <;> rfl
  · rename_i hnew
    rw [hnew] at h
    dsimp only at h
    split_ifs with hcreat hsize hgrow hfd
    · rfl
    · rfl
    · dsimp only
      rw [contentAt_place, Function.update_apply]
      split_ifs with hidx hv
      · cases hv
      · rw [hidx, contentAt_claimIndex]
      · rfl
    · rw [if_neg (not_not.2 hcreat), if_neg hsize, if_neg hgrow, if_neg hfd] at h
      cases h
    · rfl

theorem leaks_eq_false (h : KeepsAccount r e) : r.leaks e = false := by
  cases e with
  | call pid fromSigsys call =>
    cases call with
    | shmget a =>
      simp only [ShmRun.leaks]
      split
      · rename_i shms errno _ hget
        rw [List.any_eq_false]
        intro i _
        have herr : (shmget r.world.shms a).2 = .error errno := by rw [hget]
        have hcontent := contentAt_shmget_error r.world.shms h herr i
        rw [hget] at hcontent
        rw [newlyMade_same hcontent]
        exact Bool.false_ne_true
      · rfl
    | _ => rfl
  | _ => rfl

theorem leaked_step (hcond : KeepsAccount r e) (h : r.leaked = false) :
    (r.step e).leaked = false := by
  unfold ShmRun.step
  split
  · exact h
  · dsimp only
    rw [h, leaks_eq_false hcond]
    rfl

/-! ### The account over a run -/

/-- The segments, the mappings and what is attached agree in every state of a run that keeps
away from the calls that lose track. -/
theorem shm_accounted (pid : ℕ) (events : List ShmEvent)
    (h : AllSteps ShmRun.step KeepsAccount (ShmRun.initial pid) events) :
    ∀ r ∈ states ShmRun.step (ShmRun.initial pid) events, ShmAccounted r := by
  have hinv := invariant_states (I := fun r => r.Inv ∧ r.leaked = false)
    (fun _ _ hcond hr => ⟨hr.1.step hcond, leaked_step hcond hr.2⟩)
    ⟨ShmRun.inv_initial pid, rfl⟩ h
  intro r hr
  obtain ⟨hkept, hleaked⟩ := hinv r hr
  exact hkept.accounted hleaked

/-- A segment is made and attached, its `mmap` succeeds, the process forks, and the child
detaches. -/
theorem shm_accounted_attached :
    ShmAccounted (([.call 1 true (.shmget ⟨0, 4096, 512, true, 5, true⟩),
      .call 1 true (.shmat 1 true), .leave 1 ⟨3, 0, false, false, none⟩,
      .leave 1 ⟨0, 0, false, false, none⟩, .leave 1 ⟨0, 0, false, false, some 4⟩,
      .leave 1 ⟨0x10000, 4096, false, false, none⟩, .clone 1 2 false [],
      .call 2 true (.shmdt 0x10000)] : List ShmEvent).foldl ShmRun.step (ShmRun.initial 1)) :=
  shm_accounted 1 _ (by decide +kernel) _ (foldl_mem_states ShmRun.step _ _)

/-- An `mmap` that fails for want of memory, which the chain does not take for an error. -/
theorem failed_mmap_recorded :
    ¬ ∀ (pid : ℕ) (events : List ShmEvent),
      ∀ r ∈ states ShmRun.step (ShmRun.initial pid) events, ShmAccounted r := by
  intro h
  have hrun := h 1 [.call 1 true (.shmget ⟨0, 4096, 512, true, 5, true⟩),
    .call 1 true (.shmat 1 true), .leave 1 ⟨3, 0, false, false, none⟩,
    .leave 1 ⟨0, 0, false, false, none⟩, .leave 1 ⟨0, 0, false, false, some 4⟩,
    .leave 1 ⟨-12, 4096, false, false, none⟩] _ (foldl_mem_states ShmRun.step _ _)
  have hperm := hrun.recorded.length_eq
  revert hperm
  decide +kernel

end NeoProot.SysVIpc
