import NeoProot.SysVIpc.MsgLedger

/-!
# Receivers

Every tracee of the namespace is idle, blocked in a `msgrcv`, or scheduled to
retry one.  `step_outcome` says once what an event makes of a tracee; that no
message is lost and that a retry finds its queue are read off it.

## Main definitions

* `Phase` — idle, blocked or scheduled.
* `Outcome` — where a tracee comes from that an event leaves.
* `MessagesAccounted` — the messages of a namespace in every state.
* `RetriesSafely` — a scheduled tracee finds the queue it blocked on.
-/

namespace NeoProot.SysVIpc

open Run

variable {w : MsgWorld} {actor i idx pid : ℕ} {note : MsgNote} {c d t : IpcTracee}
  {m : SysVIpcMsgQueueItem} {cs : List IpcTracee} {q : MsgQueueContent} {u : Option ℤ}
  {a : Attention} {e : MsgEvent} {r : MsgRun}

/-- Blocked tracees are inside their `ppoll`. -/
def Inside (c : IpcTracee) : Prop :=
  c.waitState = .enteredPpoll ∨ c.waitState = .restartedIntoPpoll

/-- Scheduled tracees have left their `ppoll`, or never get into it. -/
def Interrupted (c : IpcTracee) : Prop :=
  c.waitState = .signaledPpoll ∨ c.waitState = .restartedIntoPpollCanceled

/-- The three phases of a tracee. -/
inductive Phase (c : IpcTracee) : Prop
  | idle (hr : c.waitReason = .notWaiting) (hc : c.chainState = .notChained)
  | blocked (hr : c.waitReason = .waitQueueRecv) (hc : c.chainState = .notChained)
      (hs : Inside c) (hb : CanBlock c.msgrcv)
  | scheduled (hr : c.waitReason = .notWaiting) (hc : c.chainState = .msgrcvRetry)
      (hs : Interrupted c) (hb : CanBlock c.msgrcv)

/-- The invariant of the tracees. -/
structure MsgWorld.Inv (w : MsgWorld) : Prop where
  nodup : (w.tracees.map (·.pid)).Nodup
  phase : ∀ c ∈ w.tracees, Phase c

/-- A tracee that goes on waiting is not one that the event of the note had to wake. -/
def Leaves (c : IpcTracee) : MsgNote → Prop
  | .sent idx m none => ¬ WaitsFor idx m c
  | .removed idx => c.waitingObjectIndex ≠ idx
  | _ => True

/-- Where a tracee comes from that an event leaves. -/
inductive Outcome (w : MsgWorld) (actor : ℕ) (note : MsgNote) (d : IpcTracee) : Prop
  | idle (hr : d.waitReason = .notWaiting) (hc : d.chainState = .notChained)
  | waiting (c : IpcTracee) (hmem : c ∈ w.tracees) (hcr : c.waitReason = .waitQueueRecv)
      (hr : d.waitReason = .waitQueueRecv) (hc : d.chainState = .notChained) (hs : Inside d)
      (hpid : d.pid = c.pid) (hidx : d.waitingObjectIndex = c.waitingObjectIndex)
      (hargs : d.msgrcv = c.msgrcv) (hnote : Leaves c note) (hb : CanBlock d.msgrcv)
  | blocked (hr : d.waitReason = .waitQueueRecv) (hc : d.chainState = .notChained)
      (hs : Inside d) (hb : CanBlock d.msgrcv) (hpid : d.pid = actor)
      (hnote : note = .blocked d.waitingObjectIndex)
      (hno : ∀ m ∈ queuedItems (contentAt w.queues d.waitingObjectIndex),
        Wanted d.msgrcv m = false)
  | retrying (c : IpcTracee) (hmem : c ∈ w.tracees) (hcc : c.chainState = .msgrcvRetry)
      (hr : d.waitReason = .notWaiting) (hc : d.chainState = .msgrcvRetry)
      (hs : Interrupted d) (hb : CanBlock d.msgrcv) (hpid : d.pid = c.pid)
      (hidx : d.waitingObjectIndex = c.waitingObjectIndex)
      (hstatus : d.statusAfterWait = c.statusAfterWait)
  | scheduled (c : IpcTracee) (hmem : c ∈ w.tracees) (hcr : c.waitReason = .waitQueueRecv)
      (hr : d.waitReason = .notWaiting) (hc : d.chainState = .msgrcvRetry)
      (hs : Interrupted d) (hb : CanBlock d.msgrcv) (hpid : d.pid = c.pid)
      (hidx : d.waitingObjectIndex = c.waitingObjectIndex)
      (hnote : ∃ m, note = .sent c.waitingObjectIndex m (some c.pid))

theorem Outcome.phase (h : Outcome w actor note d) : Phase d := by
  cases h with
  | idle hr hc => exact .idle hr hc
  | waiting c _ _ hr hc hs _ _ _ _ hb => exact .blocked hr hc hs hb
  | blocked hr hc hs hb => exact .blocked hr hc hs hb
  | retrying c _ _ hr hc hs hb => exact .scheduled hr hc hs hb
  | scheduled c _ _ hr hc hs hb => exact .scheduled hr hc hs hb

/-- A tracee that an event leaves alone. -/
theorem Phase.outcome (h : Phase c) (hmem : c ∈ w.tracees)
    (hnote : c.waitReason = .waitQueueRecv → Leaves c note) : Outcome w actor note c := by
  cases h with
  | idle hr hc => exact .idle hr hc
  | blocked hr hc hs hb => exact .waiting c hmem hr hr hc hs rfl rfl rfl (hnote hr) hb
  | scheduled hr hc hs hb => exact .retrying c hmem hc hr hc hs hb rfl rfl rfl

/-! ### The stops of a tracee -/

theorem Phase.idle_of_notWaiting (h : Phase c) (hs : c.waitState = .notWaiting) :
    c.waitReason = .notWaiting ∧ c.chainState = .notChained := by
  cases h with
  | idle hr hc => exact ⟨hr, hc⟩
  | blocked _ _ hin => rcases hin with hin | hin <;> rw [hs] at hin <;> cases hin
  | scheduled _ _ hin => rcases hin with hin | hin <;> rw [hs] at hin <;> cases hin

theorem syscallTail_idle (fromSigsys : Bool) (status : ℤ) (hr : c.waitReason = .notWaiting)
    (hc : c.chainState = .notChained) :
    (syscallTail fromSigsys status c).waitReason = .notWaiting ∧
      (syscallTail fromSigsys status c).chainState = .notChained := by
  refine ⟨by rw [syscallTail_waitReason, hr], ?_⟩
  rw [syscallTail, if_neg (not_not.2 hc)]
  split_ifs <;> exact hc

theorem syscallTail_blocked (fromSigsys : Bool) (status : ℤ) (hr : c.waitReason = .waitQueueRecv)
    (hc : c.chainState = .notChained) :
    Inside (syscallTail fromSigsys status c) ∧
      (syscallTail fromSigsys status c).chainState = .notChained := by
  have hne : c.waitReason ≠ .notWaiting := by rw [hr]; decide
  rw [syscallTail, if_neg (not_not.2 hc), if_pos hne]
  cases fromSigsys
  · exact ⟨.inl rfl, hc⟩
  · exact ⟨.inr rfl, hc⟩

theorem outcome_enterStart (h : Phase c) (hmem : c ∈ w.tracees)
    (hs : c.waitState ≠ .restartedIntoPpollCanceled)
    (hnote : c.waitReason = .waitQueueRecv → Leaves c note) :
    Outcome w actor note (enterStart c) := by
  by_cases hre : c.waitState = .restartedIntoPpoll
  · cases h with
    | idle hr hc => exact .idle (by simp [hr]) (by simp [enterStart, hre, hc])
    | blocked hr hc _ hb =>
      have hargs : (enterStart c).msgrcv = c.msgrcv := by simp [enterStart, hre]
      exact .waiting c hmem hr (by simp [hr]) (by simp [enterStart, hre, hc])
        (.inl (by simp [enterStart, hre])) (by simp) (by simp [enterStart, hre])
        hargs (hnote hr) (hargs ▸ hb)
    | scheduled _ _ hin => rcases hin with hin | hin <;> rw [hre] at hin <;> cases hin
  · have hsame : enterStart c = c := by
      unfold enterStart
      split
      · rename_i h'; exact absurd h' hre
      · rename_i h'; exact absurd h' hs
      · rfl
    rw [hsame]
    exact h.outcome hmem hnote

theorem outcome_exitStart (h : Phase c) (hmem : c ∈ w.tracees)
    (hs : ¬ (c.waitState = .signaledPpoll ∨ c.waitState = .enteredGetpid))
    (hnote : c.waitReason = .waitQueueRecv → Leaves c note) :
    Outcome w actor note (exitStart c) := by
  by_cases hen : c.waitState = .enteredPpoll
  · cases h with
    | idle hr hc => exact .idle (by simp [exitStart, hen]) (by simp [exitStart, hen, hc])
    | blocked hr hc _ => exact .idle (by simp [exitStart, hen]) (by simp [exitStart, hen, hc])
    | scheduled _ _ hin => rcases hin with hin | hin <;> rw [hen] at hin <;> cases hin
  · have hsame : exitStart c = c := by
      unfold exitStart
      split
      · rename_i h'; exact absurd h' hen
      · rename_i h'; exact absurd (.inl h') hs
      · rename_i h'; exact absurd (.inr h') hs
      · rfl
    rw [hsame]
    exact h.outcome hmem hnote

/-! ### The handlers -/

/-- What the loop of `msgsnd` makes of a tracee. -/
theorem mem_wakeFirst (h : d ∈ (wakeFirst idx m cs).2) :
    (d ∈ cs ∧ ((wakeFirst idx m cs).1 = none → ¬ WaitsFor idx m d)) ∨
      ∃ c ∈ cs, (wakeFirst idx m cs).1 = some c.pid ∧ WaitsFor idx m c ∧ d = scheduleRetry c := by
  induction cs with
  | nil => cases h
  | cons c cs ih =>
    rw [wakeFirst] at h ⊢
    by_cases hc : WaitsFor idx m c
    · rw [if_pos hc] at h ⊢
      rcases List.mem_cons.1 h with rfl | hd
      · exact .inr ⟨c, List.mem_cons_self, rfl, hc, rfl⟩
      · exact .inl ⟨List.mem_cons_of_mem c hd, fun hf => by cases hf⟩
    · rw [if_neg hc] at h ⊢
      rcases List.mem_cons.1 h with rfl | hd
      · exact .inl ⟨List.mem_cons_self, fun _ => hc⟩
      · rcases ih hd with ⟨hmem, hno⟩ | ⟨c', hc', hwoke, hw, rfl⟩
        · exact .inl ⟨List.mem_cons_of_mem c hmem, hno⟩
        · exact .inr ⟨c', List.mem_cons_of_mem c hc', hwoke, hw, rfl⟩

/-- The tracees that the loop passes over stay as they are. -/
theorem mem_wakeFirst_of_not (h : c ∈ cs) (hw : ¬ WaitsFor idx m c) :
    c ∈ (wakeFirst idx m cs).2 := by
  induction cs with
  | nil => cases h
  | cons d cs ih =>
    rw [wakeFirst]
    split
    · rename_i hd
      refine List.mem_cons_of_mem _ ((List.mem_cons.1 h).resolve_left ?_)
      rintro rfl
      exact hw hd
    · rcases List.mem_cons.1 h with rfl | h
      · exact List.mem_cons_self
      · exact List.mem_cons_of_mem d (ih h)

/-- The tracee that the loop names is told to retry. -/
theorem scheduled_of_wakeFirst (h : (wakeFirst idx m cs).1 = some pid) :
    ∃ c ∈ cs, c.pid = pid ∧ WaitsFor idx m c ∧ scheduleRetry c ∈ (wakeFirst idx m cs).2 := by
  induction cs with
  | nil => cases h
  | cons c cs ih =>
    rw [wakeFirst] at h ⊢
    split at h
    · rename_i hc
      rw [if_pos hc]
      exact ⟨c, List.mem_cons_self, Option.some.inj h, hc, List.mem_cons_self⟩
    · rename_i hc
      rw [if_neg hc]
      obtain ⟨d, hd, hpid, hw, hmem⟩ := ih h
      exact ⟨d, List.mem_cons_of_mem c hd, hpid, hw, List.mem_cons_of_mem c hmem⟩

theorem map_pid_wakeFirst (idx : ℕ) (m : SysVIpcMsgQueueItem) (cs : List IpcTracee) :
    (wakeFirst idx m cs).2.map (·.pid) = cs.map (·.pid) := by
  induction cs with
  | nil => rfl
  | cons c cs ih =>
    rw [wakeFirst]
    split
    · rfl
    · simp [ih]

theorem wakeTracee_interrupted (status : ℤ) (h : Inside c) : Interrupted (wakeTracee status c) := by
  rcases h with h | h
  · exact .inl (by simp [wakeTracee, h])
  · exact .inr (by simp [wakeTracee, h])

section

variable {w : MsgWorld} {actor : ℕ} {note : MsgNote}

/-- The caller is idle, and so is any tracee with its number. -/
theorem MsgWorld.Inv.idle_caller (h : w.Inv) (ht : callerOf actor w.tracees = some t)
    (hc : c ∈ w.tracees) (hpid : c.pid = actor) :
    c.waitReason = .notWaiting ∧ c.chainState = .notChained := by
  obtain ⟨htmem, htpid, hts⟩ := callerOf_eq_some ht
  rw [eq_of_pid h.nodup hc htmem (hpid.trans htpid.symm)]
  exact (h.phase t htmem).idle_of_notWaiting hts

/-- A tracee that the handler of a call leaves alone, after the end of the call. -/
theorem outcome_tail (h : w.Inv) (ht : callerOf actor w.tracees = some t) (fromSigsys : Bool)
    (status : ℤ) (hc : c ∈ w.tracees) (hnote : c.waitReason = .waitQueueRecv → Leaves c note) :
    Outcome w actor note
      (if c.pid = actor then syscallTail fromSigsys status c else c) := by
  split
  · rename_i hpid
    obtain ⟨hr, hchain⟩ := h.idle_caller ht hc hpid
    obtain ⟨hr', hchain'⟩ := syscallTail_idle fromSigsys status hr hchain
    exact .idle hr' hchain'
  · exact (h.phase c hc).outcome hc hnote

theorem leaves_attempt (c : IpcTracee) (idx : ℕ) (result : Attempt) :
    Leaves c (result.note idx) := by
  cases result <;> exact trivial

theorem outcome_msgget (h : w.Inv) (ht : callerOf actor w.tracees = some t) (fromSigsys : Bool)
    (a : MsggetArgs)
    (hd : d ∈ updateTracee actor (syscallTail fromSigsys (w.handle actor (.msgget a)).2.1)
      w.tracees) : Outcome w actor (w.handle actor (.msgget a)).2.2 d := by
  obtain ⟨c, hc, rfl⟩ := mem_updateTracee.1 hd
  refine outcome_tail h ht fromSigsys _ hc fun _ => ?_
  simp only [MsgWorld.handle]
  split
  · dsimp only
    split <;> exact trivial
  · exact trivial

theorem outcome_msgsnd (h : w.Inv) (ht : callerOf actor w.tracees = some t) (fromSigsys : Bool)
    (a : MsgsndArgs)
    (hd : d ∈ updateTracee actor (syscallTail fromSigsys (msgsnd w a).2.1) (msgsnd w a).1.tracees) :
    Outcome w actor (msgsnd w a).2.2 d := by
  obtain ⟨c, hc, rfl⟩ := mem_updateTracee.1 hd
  generalize (msgsnd w a).2.1 = status
  rw [msgsnd] at hc ⊢
  cases htarget : msgsndTarget w.queues a with
  | error e =>
    rw [htarget] at hc
    exact outcome_tail h ht fromSigsys _ hc fun _ => trivial
  | ok idx =>
    rw [htarget] at hc
    rcases mem_wakeFirst hc with ⟨hmem, hno⟩ | ⟨c', hc', hwoke, hw, rfl⟩
    · refine outcome_tail h ht fromSigsys _ hmem fun _ => ?_
      dsimp only
      cases hwoke : (wakeFirst idx a.item w.tracees).1 with
      | none => exact hno hwoke
      | some pid => exact trivial
    · have hpid : c'.pid ≠ actor := by
        intro hpid
        have hidle := (h.idle_caller ht hc' hpid).1
        rw [hw.1] at hidle
        cases hidle
      rw [if_neg (by exact hpid)]
      cases h.phase c' hc' with
      | idle hr => rw [hw.1] at hr; cases hr
      | scheduled hr => rw [hw.1] at hr; cases hr
      | blocked hr hchain hs hb =>
        refine .scheduled c' hc' hr rfl rfl (wakeTracee_interrupted _ hs) hb rfl rfl ⟨a.item, ?_⟩
        dsimp only
        rw [hwoke, hw.2.1]

theorem outcome_msgrcv (h : w.Inv) (ht : callerOf actor w.tracees = some t) (fromSigsys : Bool)
    (msqid : BitVec 32) (msgp msgsz msgtyp msgflg : UInt64) (u : Option ℤ)
    (hd : d ∈ updateTracee actor
      (syscallTail fromSigsys (msgrcv w actor msqid msgp msgsz msgtyp msgflg u).2.1)
      (msgrcv w actor msqid msgp msgsz msgtyp msgflg u).1.tracees) :
    Outcome w actor (msgrcv w actor msqid msgp msgsz msgtyp msgflg u).2.2 d := by
  obtain ⟨c, hc, rfl⟩ := mem_updateTracee.1 hd
  generalize (msgrcv w actor msqid msgp msgsz msgtyp msgflg u).2.1 = status
  rw [msgrcv] at hc ⊢
  cases hl : lookupIpcObject w.queues msqid with
  | none =>
    rw [hl] at hc
    exact outcome_tail h ht fromSigsys _ hc fun _ => trivial
  | some idx =>
    obtain ⟨q, hget, hq⟩ := lookup_contentAt hl
    rw [hl] at hc
    dsimp only at hc ⊢
    rw [hget] at hc ⊢
    dsimp only at hc ⊢
    obtain ⟨c', hc', rfl⟩ := mem_updateTracee.1 hc
    by_cases hpid : c'.pid = actor
    · obtain ⟨hr, hchain⟩ := h.idle_caller ht hc' hpid
      rw [if_pos hpid]
      have hown : (msgrcvOwn idx ⟨msgp, (asWord (asInt msgsz)).toNat, asInt msgtyp,
          asWord (asInt msgflg)⟩ (doMsgrcv q.content ⟨msgp, (asWord (asInt msgsz)).toNat,
            asInt msgtyp, asWord (asInt msgflg)⟩ u) c').pid = actor := by
        unfold msgrcvOwn
        split <;> exact hpid
      rw [if_pos hown]
      unfold msgrcvOwn
      split
      · rename_i hb
        obtain ⟨hin, hch⟩ := syscallTail_blocked fromSigsys status
          (c := { c' with
            msgrcv := ⟨msgp, (asWord (asInt msgsz)).toNat, asInt msgtyp, asWord (asInt msgflg)⟩
            waitReason := .waitQueueRecv
            waitingObjectIndex := idx }) rfl hchain
        refine .blocked (by simp) hch hin ?_ (by simpa using hpid) ?_ ?_
        · rw [syscallTail_msgrcv]
          exact (doMsgrcv_blocked hb).1
        · rw [syscallTail_waitingObjectIndex, hb]
          rfl
        · rw [syscallTail_waitingObjectIndex, syscallTail_msgrcv, hq]
          exact (doMsgrcv_blocked hb).2
      · obtain ⟨hr', hch⟩ := syscallTail_idle fromSigsys status
          (c := { c' with
            msgrcv := ⟨msgp, (asWord (asInt msgsz)).toNat, asInt msgtyp,
              asWord (asInt msgflg)⟩ }) hr hchain
        exact .idle hr' hch
    · rw [if_neg hpid, if_neg hpid]
      exact (h.phase c' hc').outcome hc' fun _ => leaves_attempt c' idx _

theorem outcome_msgctl (h : w.Inv) (ht : callerOf actor w.tracees = some t) (fromSigsys : Bool)
    (a : MsgctlArgs)
    (hd : d ∈ updateTracee actor (syscallTail fromSigsys (msgctl w a).2.1) (msgctl w a).1.tracees) :
    Outcome w actor (msgctl w a).2.2 d := by
  obtain ⟨c, hc, rfl⟩ := mem_updateTracee.1 hd
  generalize (msgctl w a).2.1 = status
  rw [msgctl] at hc ⊢
  cases hl : lookupIpcObject w.queues a.msqid with
  | none =>
    rw [hl] at hc
    exact outcome_tail h ht fromSigsys _ hc fun _ => trivial
  | some idx =>
    rw [hl] at hc
    dsimp only at hc ⊢
    by_cases hcmd : a.cmd &&& ~~~SYSVIPC_IPC_64 = IPC_RMID
    · rw [if_pos hcmd] at hc ⊢
      obtain ⟨c', hc', ⟨hr, -, rfl⟩ | ⟨hw, rfl⟩⟩ := mem_wakeRemoved hc
      · have hpid : c'.pid ≠ actor := by
          intro hpid
          have hidle := (h.idle_caller ht hc' hpid).1
          rw [hr] at hidle
          cases hidle
        rw [if_neg (by exact hpid)]
        cases h.phase c' hc' with
        | idle hr' => rw [hr] at hr'; cases hr'
        | scheduled hr' => rw [hr] at hr'; cases hr'
        | blocked _ hchain => exact .idle rfl hchain
      · exact outcome_tail h ht fromSigsys _ hc' fun hr hi => hw ⟨hr, hi⟩
    · rw [if_neg hcmd] at hc ⊢
      split at hc <;> rename_i hstat
      · rw [if_pos hstat]
        exact outcome_tail h ht fromSigsys _ hc fun _ => trivial
      · rw [if_neg hstat]
        exact outcome_tail h ht fromSigsys _ hc fun _ => trivial

theorem tracees_msgrcvRetry (w : MsgWorld) (c : IpcTracee) (u : Option ℤ) :
    (msgrcvRetry w c u).1.tracees = w.tracees := by
  rw [msgrcvRetry]
  split
  · split
    · rfl
    · split <;> rfl
  · rfl

theorem leaves_msgrcvRetry (w : MsgWorld) (c d : IpcTracee) (u : Option ℤ) :
    Leaves d (msgrcvRetry w c u).2 := by
  rw [msgrcvRetry]
  split
  · split
    · exact trivial
    · split
      · dsimp only
        cases doMsgrcv _ _ _ <;> exact trivial
      · exact trivial
  · exact trivial

theorem outcome_resume (h : w.Inv) (hc : c ∈ w.tracees) (hs : ¬ Inside c) (u : Option ℤ)
    (hd : d ∈ (w.resume c u).1.tracees) : Outcome w actor (w.resume c u).2 d := by
  have htracees : (if c.chainState = .msgrcvRetry then msgrcvRetry w c u
      else (w, .nothing)).1.tracees = w.tracees := by
    split
    · exact tracees_msgrcvRetry w c u
    · rfl
  have hleaves (e : IpcTracee) : Leaves e (w.resume c u).2 := by
    simp only [MsgWorld.resume]
    split
    · exact leaves_msgrcvRetry w c e u
    · exact trivial
  rw [MsgWorld.resume] at hd
  dsimp only at hd
  rw [htracees] at hd
  obtain ⟨c', hc', rfl⟩ := mem_updateTracee.1 hd
  split
  · rename_i hpid
    rw [eq_of_pid h.nodup hc' hc hpid]
    cases h.phase c hc with
    | idle hr hchain => exact .idle hr (by simp [hchain])
    | blocked _ _ hin => exact absurd hin hs
    | scheduled hr hchain _ => exact .idle hr (by simp [hchain])
  · exact (h.phase c' hc').outcome hc' fun _ => hleaves c'

theorem outcome_fresh (child process : ℕ) : Outcome w actor note (IpcTracee.fresh child process) :=
  .idle rfl rfl

/-- Where the tracees come from that an event leaves. -/
theorem step_outcome (h : w.Inv) (e : MsgEvent) :
    ∀ d ∈ (w.step e).1.tracees, Outcome w e.actor (w.step e).2 d := by
  intro d hd
  unfold MsgWorld.step at hd ⊢
  split at hd <;> rename_i hab
  · rw [if_pos hab]
    exact (h.phase d hd).outcome hd fun _ => trivial
  · rw [if_neg hab]
    cases e with
    | call pid fromSigsys call =>
      dsimp only at hd ⊢
      cases ht : callerOf pid w.tracees with
      | none =>
        rw [ht] at hd
        exact (h.phase d hd).outcome hd fun _ => trivial
      | some t =>
        rw [ht] at hd
        cases call with
        | msgget a => exact outcome_msgget h ht fromSigsys a hd
        | msgsnd a => exact outcome_msgsnd h ht fromSigsys a hd
        | msgrcv msqid msgp msgsz msgtyp msgflg u =>
          exact outcome_msgrcv h ht fromSigsys msqid msgp msgsz msgtyp msgflg u hd
        | msgctl a => exact outcome_msgctl h ht fromSigsys a hd
    | enter pid u =>
      dsimp only at hd ⊢
      cases hf : w.tracees.find? (·.pid = pid) with
      | none =>
        rw [hf] at hd
        exact (h.phase d hd).outcome hd fun _ => trivial
      | some c =>
        have hcmem := List.mem_of_find?_eq_some hf
        rw [hf] at hd
        dsimp only at hd ⊢
        by_cases hs : c.waitState = .restartedIntoPpollCanceled
        · rw [if_pos hs] at hd ⊢
          refine outcome_resume h hcmem ?_ u hd
          rintro (hin | hin) <;> rw [hs] at hin <;> cases hin
        · rw [if_neg hs] at hd ⊢
          obtain ⟨c', hc', rfl⟩ := mem_updateTracee.1 hd
          split
          · rename_i hpid
            have hcpid : c.pid = pid := by simpa using List.find?_some hf
            rw [eq_of_pid h.nodup hc' hcmem (hpid.trans hcpid.symm)]
            exact outcome_enterStart (h.phase c hcmem) hcmem hs fun _ => trivial
          · exact (h.phase c' hc').outcome hc' fun _ => trivial
    | leave pid u =>
      dsimp only at hd ⊢
      cases hf : w.tracees.find? (·.pid = pid) with
      | none =>
        rw [hf] at hd
        exact (h.phase d hd).outcome hd fun _ => trivial
      | some c =>
        have hcmem := List.mem_of_find?_eq_some hf
        rw [hf] at hd
        dsimp only at hd ⊢
        by_cases hs : c.waitState = .signaledPpoll ∨ c.waitState = .enteredGetpid
        · rw [if_pos hs] at hd ⊢
          refine outcome_resume h hcmem ?_ u hd
          rintro (hin | hin) <;> rcases hs with hs | hs <;> rw [hs] at hin <;> cases hin
        · rw [if_neg hs] at hd ⊢
          obtain ⟨c', hc', rfl⟩ := mem_updateTracee.1 hd
          split
          · rename_i hpid
            have hcpid : c.pid = pid := by simpa using List.find?_some hf
            rw [eq_of_pid h.nodup hc' hcmem (hpid.trans hcpid.symm)]
            exact outcome_exitStart (h.phase c hcmem) hcmem hs fun _ => trivial
          · exact (h.phase c' hc').outcome hc' fun _ => trivial
    | clone parent child thread =>
      rcases mem_cloneTracee hd with hd | ⟨process, rfl⟩
      · exact (h.phase d hd).outcome hd fun _ => trivial
      · exact outcome_fresh child process
    | exit pid =>
      have hmem := mem_dropTracee hd
      exact (h.phase d hmem).outcome hmem fun _ => trivial

theorem msgrcvOwn_pid (idx : ℕ) (a : MsgrcvArgs) (result : Attempt) (c : IpcTracee) :
    (msgrcvOwn idx a result c).pid = c.pid := by
  unfold msgrcvOwn
  split <;> rfl

/-- No handler adds or drops a tracee. -/
theorem map_pid_handle (w : MsgWorld) (self : ℕ) (call : MsgCall) :
    (w.handle self call).1.tracees.map (·.pid) = w.tracees.map (·.pid) := by
  cases call with
  | msgget a => rfl
  | msgsnd a =>
    simp only [MsgWorld.handle, msgsnd]
    split
    · rfl
    · exact map_pid_wakeFirst _ _ _
  | msgrcv msqid msgp msgsz msgtyp msgflg u =>
    simp only [MsgWorld.handle, msgrcv]
    split
    · rfl
    · split
      · rfl
      · exact map_pid_updateTracee (msgrcvOwn_pid _ _ _)
  | msgctl a =>
    simp only [MsgWorld.handle, msgctl]
    split
    · rfl
    · split
      · exact map_pid_wakeRemoved _ _ _
      · split <;> rfl

theorem map_pid_resume (w : MsgWorld) (c : IpcTracee) (u : Option ℤ) :
    (w.resume c u).1.tracees.map (·.pid) = w.tracees.map (·.pid) := by
  simp only [MsgWorld.resume]
  refine Eq.trans (map_pid_updateTracee ?_) ?_
  · exact fun _ => rfl
  · split
    · rw [tracees_msgrcvRetry]
    · rfl

theorem nodup_step (h : (w.tracees.map (·.pid)).Nodup) (e : MsgEvent) :
    ((w.step e).1.tracees.map (·.pid)).Nodup := by
  unfold MsgWorld.step
  split
  · exact h
  · cases e with
    | call pid fromSigsys call =>
      dsimp only
      split
      · exact h
      · dsimp only
        rw [map_pid_updateTracee (syscallTail_pid _ _), map_pid_handle]
        exact h
    | enter pid u =>
      dsimp only
      split
      · exact h
      · split
        · rw [map_pid_resume]
          exact h
        · exact (map_pid_updateTracee enterStart_pid).symm ▸ h
    | leave pid u =>
      dsimp only
      split
      · exact h
      · split
        · rw [map_pid_resume]
          exact h
        · exact (map_pid_updateTracee exitStart_pid).symm ▸ h
    | clone parent child thread => exact nodup_cloneTracee h
    | exit pid => exact nodup_dropTracee h

theorem MsgWorld.Inv.step (h : w.Inv) (e : MsgEvent) : (w.step e).1.Inv :=
  ⟨nodup_step h.nodup e, fun d hd => (step_outcome h e d hd).phase⟩

theorem MsgWorld.inv_initial (pid : ℕ) : (MsgWorld.initial pid).Inv := by
  refine ⟨by simp [MsgWorld.initial], fun c hc => ?_⟩
  rw [List.mem_singleton.1 hc]
  exact .idle rfl rfl

end

/-! ### The retry of a scheduled tracee -/

/-- The tracee will retry its `msgrcv`. -/
def WillRetry (c : IpcTracee) : Prop :=
  c.chainState = .msgrcvRetry ∧ c.statusAfterWait = -EAGAIN

instance (c : IpcTracee) : Decidable (WillRetry c) := inferInstanceAs (Decidable (_ ∧ _))

/-- The message that was tried does not fit, or the memory of the tracee cannot be written. -/
def Refuses (a : MsgrcvArgs) (tried : Option SysVIpcMsgQueueItem) (unwritable : Option ℤ) : Prop :=
  unwritable ≠ none ∨ ∃ m ∈ tried, a.msgsz < m.mtext.length ∧ ¬ HasFlag a.msgflg MSG_NOERROR

/-- A retry that finds a message which it wants takes one, or is refused the first such. -/
theorem retryNote_of_wanted {a : MsgrcvArgs} (hb : CanBlock a) (hm : m ∈ q.items)
    (hw : Wanted a m = true) (idx : ℕ) (u : Option ℤ) :
    (∃ k m', retryNote idx q.items a u (doMsgrcv q a u) = .received idx k m') ∨
      ∃ tried, retryNote idx q.items a u (doMsgrcv q a u) = .refused idx a tried u ∧
        Refuses a tried u := by
  obtain ⟨k, hk⟩ : ∃ k, q.items.findIdx? (Wanted a) = some k :=
    Option.isSome_iff_exists.1 (List.findIdx?_isSome ▸ List.any_eq_true.2 ⟨m, hm, hw⟩)
  obtain ⟨hlt, -⟩ := List.findIdx?_eq_some_iff_getElem.1 hk
  have hget : q.items[k]? = some q.items[k] := List.getElem?_eq_getElem hlt
  have hfind : q.items.find? (Wanted a) = some q.items[k] := by
    rw [List.find?_eq_bind_findIdx?_getElem?, hk]
    exact hget
  simp only [doMsgrcv, selectMsg, hb.known, hb.takes, hk, hget, ne_eq, not_true_eq_false, if_false,
    false_and]
  by_cases hbig : a.msgsz < (q.items[k]).mtext.length ∧ ¬ HasFlag a.msgflg MSG_NOERROR
  · rw [if_pos hbig]
    exact .inr ⟨_, rfl, .inr ⟨_, hfind, hbig⟩⟩
  · rw [if_neg hbig]
    cases u with
    | none => exact .inl ⟨_, _, rfl⟩
    | some errno => exact .inr ⟨_, rfl, .inl (Option.some_ne_none errno)⟩

/-- What a retry tells is true: it is refused only what does not fit or cannot be written. -/
theorem refuses_of_retry {a : MsgrcvArgs} (hb : CanBlock a) {args : MsgrcvArgs}
    {tried : Option SysVIpcMsgQueueItem} {u' : Option ℤ}
    (h : retryNote i q.items a u (doMsgrcv q a u) = .refused idx args tried u') :
    Refuses args tried u' := by
  by_cases hall : ∀ m ∈ q.items, Wanted a m = false
  · have hnone : q.items.findIdx? (Wanted a) = none := List.findIdx?_eq_none_iff.2 hall
    simp [doMsgrcv, selectMsg, hb.known, hb.takes, hb.waits, hnone, retryNote] at h
  · simp only [not_forall, Bool.not_eq_false] at hall
    obtain ⟨m, hm, hw⟩ := hall
    obtain ⟨k, m', heq⟩ | ⟨tried', heq, hrefuses⟩ := retryNote_of_wanted hb hm hw i u
    · exact absurd (heq.symm.trans h) (by simp)
    · obtain ⟨-, rfl, rfl, rfl⟩ := MsgNote.refused.inj (heq.symm.trans h)
      exact hrefuses

section

variable {w : MsgWorld}

theorem note_msgrcvRetry (hq : contentAt w.queues c.waitingObjectIndex = some q)
    (hst : c.statusAfterWait = -EAGAIN) (u : Option ℤ) :
    (msgrcvRetry w c u).2 =
      retryNote c.waitingObjectIndex q.items c.msgrcv u (doMsgrcv q c.msgrcv u) := by
  obtain ⟨o, ho, hv⟩ := (validAt_iff_contentAt _ _).2 ⟨q, hq⟩
  rw [contentAt_of_get ho hv, Option.some.injEq] at hq
  rw [msgrcvRetry, if_pos hst, ho]
  simp only [hv, if_true, hq]

/-- Where the note of an event comes from. -/
inductive NoteOf (w : MsgWorld) (e : MsgEvent) (note : MsgNote) : Prop
  | nothing (hn : note = .nothing)
  | left (hn : note = .left)
  | call {pid : ℕ} {fromSigsys : Bool} {call : MsgCall} {t : IpcTracee}
      (he : e = .call pid fromSigsys call) (ht : callerOf pid w.tracees = some t)
      (hw : w.aborted = false) (hn : note = (w.handle pid call).2.2)
  | retry {c : IpcTracee} {u : Option ℤ} (hc : c ∈ w.tracees)
      (hchain : c.chainState = .msgrcvRetry) (hn : note = (msgrcvRetry w c u).2)

theorem noteOf_resume (hc : c ∈ w.tracees) (e : MsgEvent) (u : Option ℤ) :
    NoteOf w e (w.resume c u).2 := by
  simp only [MsgWorld.resume]
  split
  · rename_i hchain
    exact .retry hc hchain rfl
  · exact .nothing rfl

theorem step_noteOf (w : MsgWorld) (e : MsgEvent) : NoteOf w e (w.step e).2 := by
  unfold MsgWorld.step
  split
  · exact .nothing rfl
  · rename_i hw
    cases e with
    | call pid fromSigsys call =>
      dsimp only
      split
      · exact .nothing rfl
      · rename_i t ht
        exact .call rfl ht (Bool.not_eq_true _ ▸ hw) rfl
    | enter pid u =>
      dsimp only
      split
      · exact .nothing rfl
      · rename_i c hf
        split
        · exact noteOf_resume (List.mem_of_find?_eq_some hf) _ u
        · exact .nothing rfl
    | leave pid u =>
      dsimp only
      split
      · exact .nothing rfl
      · rename_i c hf
        split
        · exact noteOf_resume (List.mem_of_find?_eq_some hf) _ u
        · exact .nothing rfl
    | clone parent child thread => exact .nothing rfl
    | exit pid => exact .left rfl

/-- Which call tells what: `msgsnd` of a message and whom it woke, `msgctl` of a removal. -/
def Tells (w : MsgWorld) (tracees : List IpcTracee) : MsgCall → MsgNote → Prop
  | .msgsnd _, .sent idx m woke =>
    tracees = (wakeFirst idx m w.tracees).2 ∧ woke = (wakeFirst idx m w.tracees).1
  | .msgctl a, .removed idx =>
    a.cmd &&& ~~~SYSVIPC_IPC_64 = IPC_RMID ∧ lookupIpcObject w.queues a.msqid = some idx
  | _, .sent .. | _, .removed _ | _, .refused .. => False
  | _, _ => True

theorem handle_note (w : MsgWorld) (self : ℕ) (call : MsgCall) :
    Tells w (w.handle self call).1.tracees call (w.handle self call).2.2 := by
  cases call with
  | msgget a =>
    simp only [MsgWorld.handle]
    split
    · dsimp only
      split <;> exact trivial
    · exact trivial
  | msgsnd a =>
    simp only [MsgWorld.handle, msgsnd]
    split
    · exact trivial
    · exact ⟨rfl, rfl⟩
  | msgrcv msqid msgp msgsz msgtyp msgflg u =>
    simp only [MsgWorld.handle, msgrcv]
    split
    · exact trivial
    · split
      · exact trivial
      · dsimp only
        cases doMsgrcv _ _ _ <;> exact trivial
  | msgctl a =>
    simp only [MsgWorld.handle, msgctl]
    split
    · exact trivial
    · rename_i idx hl
      split
      · rename_i hcmd
        exact ⟨hcmd, hl⟩
      · split <;> exact trivial

/-- A handler leaves a tracee alone that neither waits nor makes the call. -/
theorem mem_handle {self : ℕ} (call : MsgCall) (hc : c ∈ w.tracees) (hself : c.pid ≠ self)
    (hr : c.waitReason = .notWaiting) : c ∈ (w.handle self call).1.tracees := by
  have hbusy : c.waitReason ≠ .waitQueueRecv := by rw [hr]; decide
  cases call with
  | msgget a => exact hc
  | msgsnd a =>
    simp only [MsgWorld.handle, msgsnd]
    split
    · exact hc
    · exact mem_wakeFirst_of_not hc fun hw => hbusy hw.1
  | msgrcv msqid msgp msgsz msgtyp msgflg u =>
    simp only [MsgWorld.handle, msgrcv]
    split
    · exact hc
    · split
      · exact hc
      · exact mem_updateTracee.2 ⟨c, hc, (if_neg hself).symm⟩
  | msgctl a =>
    simp only [MsgWorld.handle, msgctl]
    split
    · exact hc
    · split
      · exact List.mem_map.2 ⟨c, hc, if_neg fun hw => hbusy hw.1⟩
      · split <;> exact hc

/-- A scheduled tracee stays as it is until it retries or leaves. -/
theorem step_retrying (h : w.Inv) (hc : c ∈ w.tracees) (hchain : c.chainState = .msgrcvRetry)
    (e : MsgEvent) :
    c ∈ (w.step e).1.tracees ∨
      e.actor = c.pid ∧ ((∃ u, (w.step e).2 = (msgrcvRetry w c u).2) ∨ (w.step e).2 = .left) := by
  have hphase : c.waitReason = .notWaiting ∧ Interrupted c := by
    cases h.phase c hc with
    | idle _ hchain' => rw [hchain] at hchain'; cases hchain'
    | blocked _ hchain' => rw [hchain] at hchain'; cases hchain'
    | scheduled hr _ hs => exact ⟨hr, hs⟩
  have hstop {pid : ℕ} {d : IpcTracee} (hd : w.tracees.find? (·.pid = pid) = some d)
      (hpid : c.pid = pid) : d = c :=
    eq_of_pid h.nodup (List.mem_of_find?_eq_some hd) hc
      ((by simpa using List.find?_some hd : d.pid = pid).trans hpid.symm)
  have hresume (u : Option ℤ) : (w.resume c u).2 = (msgrcvRetry w c u).2 := by
    simp only [MsgWorld.resume, if_pos hchain]
  have hother {d : IpcTracee} (hne : c.pid ≠ d.pid) (u : Option ℤ) :
      c ∈ (w.resume d u).1.tracees := by
    have htracees : (if d.chainState = .msgrcvRetry then msgrcvRetry w d u
        else (w, .nothing)).1.tracees = w.tracees := by
      split
      · exact tracees_msgrcvRetry w d u
      · rfl
    simp only [MsgWorld.resume, htracees]
    exact mem_updateTracee.2 ⟨c, hc, (if_neg hne).symm⟩
  unfold MsgWorld.step
  split
  · exact .inl hc
  · cases e with
    | call pid fromSigsys call =>
      dsimp only
      split
      · exact .inl hc
      · rename_i t ht
        have hpid : c.pid ≠ pid := by
          intro hpid
          have hidle := (h.idle_caller ht hc hpid).2
          rw [hchain] at hidle
          cases hidle
        exact .inl (mem_updateTracee.2
          ⟨c, mem_handle call hc hpid hphase.1, (if_neg hpid).symm⟩)
    | enter pid u =>
      dsimp only
      cases hf : w.tracees.find? (·.pid = pid) with
      | none => exact .inl hc
      | some d =>
        dsimp only
        by_cases hpid : c.pid = pid
        · rw [hstop hf hpid]
          split
          · exact .inr ⟨hpid.symm, .inl ⟨u, hresume u⟩⟩
          · rename_i hs
            have hsignaled := hphase.2.resolve_right hs
            refine .inl (mem_updateTracee.2 ⟨c, hc, ?_⟩)
            rw [if_pos hpid, enterStart, hsignaled]
        · have hne : c.pid ≠ d.pid := fun heq =>
            hpid (heq.trans (by simpa using List.find?_some hf))
          split
          · exact .inl (hother hne u)
          · exact .inl (mem_updateTracee.2 ⟨c, hc, (if_neg hpid).symm⟩)
    | leave pid u =>
      dsimp only
      cases hf : w.tracees.find? (·.pid = pid) with
      | none => exact .inl hc
      | some d =>
        dsimp only
        by_cases hpid : c.pid = pid
        · rw [hstop hf hpid]
          split
          · exact .inr ⟨hpid.symm, .inl ⟨u, hresume u⟩⟩
          · rename_i hs
            have hcanceled := hphase.2.resolve_left fun h => hs (.inl h)
            refine .inl (mem_updateTracee.2 ⟨c, hc, ?_⟩)
            rw [if_pos hpid, exitStart, hcanceled]
        · have hne : c.pid ≠ d.pid := fun heq =>
            hpid (heq.trans (by simpa using List.find?_some hf))
          split
          · exact .inl (hother hne u)
          · exact .inl (mem_updateTracee.2 ⟨c, hc, (if_neg hpid).symm⟩)
    | clone parent child thread => exact .inl (mem_cloneTracee_of_mem hc)
    | exit pid =>
      by_cases hpid : c.pid = pid
      · exact .inr ⟨hpid.symm, .inr rfl⟩
      · exact .inl (List.mem_filter.2 ⟨hc, by simpa using hpid⟩)

end

/-! ### No message is lost -/

/-- How the attention to a message in the slot `i` stands: the tracee that was told to retry is
still to do so and wants the message, or it was refused one. -/
def Attended (w : MsgWorld) (i : ℕ) (m : SysVIpcMsgQueueItem) : Attention → Prop
  | .scheduled pid => ∃ c ∈ w.tracees, c.pid = pid ∧ WillRetry c ∧ c.waitingObjectIndex = i ∧
    Wanted c.msgrcv m = true
  | .refused args tried unwritable => Refuses args tried unwritable
  | .unattended | .overtaken | .deserted => True

/-- The messages of a namespace: what was sent to a queue was received once, is queued or went
with the queue; the counters are right; and a queued message that a blocked receiver wants is
one for which another receiver was woken, whose retry is still to come or ended without it. -/
structure MessagesAccounted (r : MsgRun) : Prop where
  conserved : ∀ i, (r.ledger.slots i).sent.Perm ((r.ledger.slots i).received ++
    (r.ledger.slots i).destroyed ++ queuedItems (contentAt r.world.queues i))
  counted : ∀ i, ∀ q ∈ contentAt r.world.queues i, q.msgQnum = q.items.length ∧
    q.msgCbytes = (q.items.map fun m => m.mtext.length).sum
  mirrored : ∀ i, (r.ledger.slots i).queued.map Prod.fst =
    queuedItems (contentAt r.world.queues i)
  attended : ∀ i, ∀ p ∈ (r.ledger.slots i).queued, Attended r.world i p.1 p.2
  woken : ∀ c ∈ r.world.tracees, c.waitReason = .waitQueueRecv →
    ∀ p ∈ (r.ledger.slots c.waitingObjectIndex).queued, Wanted c.msgrcv p.1 = true →
      p.2 ≠ .unattended

theorem Attention.after_of_ne (h : a ≠ .scheduled pid) (note : MsgNote) : a.after pid note = a :=
  if_neg h

theorem Attention.after_ne_unattended (h : a ≠ .unattended) (pid : ℕ) (note : MsgNote) :
    a.after pid note ≠ .unattended := by
  unfold Attention.after
  split
  · split
    · nofun
    · nofun
    · nofun
    · exact h
  · exact h

/-- What a note leaves of the messages queued in a slot. -/
theorem mem_queued_record {l : MsgLedger} {p : SysVIpcMsgQueueItem × Attention}
    (h : p ∈ ((l.record pid note).slots i).queued) :
    (∃ a, (p.1, a) ∈ (l.slots i).queued ∧
        p.2 = if note.About i then a.after pid note else a) ∨
      ∃ woke, note = .sent i p.1 woke ∧ p.2 = woke.elim .unattended .scheduled := by
  by_cases hslot : note.About i
  · rw [MsgLedger.record_slots_self hslot] at h
    have hold : p ∈ (l.slots i).attended pid note → ∃ a, (p.1, a) ∈ (l.slots i).queued ∧
        p.2 = if note.About i then a.after pid note else a := by
      intro hp
      obtain ⟨⟨m, a⟩, ha, rfl⟩ := List.mem_map.1 hp
      exact ⟨a, ha, (if_pos hslot).symm⟩
    cases note with
    | nothing => exact hslot.elim
    | created idx | blocked idx | refused idx args tried u | left => exact .inl (hold h)
    | sent idx m woke =>
      cases hslot
      rcases List.mem_append.1 h with h | h
      · exact .inl (hold h)
      · rw [List.mem_singleton.1 h]
        exact .inr ⟨woke, rfl, rfl⟩
    | received idx k m => exact .inl (hold (List.mem_of_mem_eraseIdx h))
    | removed idx => cases h
  · rw [MsgLedger.record_slots_other hslot] at h
    exact .inl ⟨p.2, h, (if_neg hslot).symm⟩

/-- What an event tells of a retry is true. -/
theorem refuses_of_step (h : w.Inv) {args : MsgrcvArgs} {tried : Option SysVIpcMsgQueueItem}
    (hnote : (w.step e).2 = .refused idx args tried u) : Refuses args tried u := by
  cases step_noteOf w e with
  | nothing hn | left hn => rw [hnote] at hn; cases hn
  | @call pid fromSigsys call t he ht hw hn =>
    have hcall := handle_note w pid call
    rw [← hn, hnote] at hcall
    cases call <;> exact hcall.elim
  | @retry c v hc hchain hn =>
    have hb : CanBlock c.msgrcv := by
      cases h.phase c hc with
      | idle _ hidle => rw [hchain] at hidle; cases hidle
      | blocked _ hidle => rw [hchain] at hidle; cases hidle
      | scheduled _ _ _ hb => exact hb
    rw [hnote, msgrcvRetry] at hn
    split at hn
    · split at hn
      · cases hn
      · split at hn
        · exact refuses_of_retry hb hn.symm
        · cases hn
    · cases hn

/-- The tracee that a `msgsnd` woke for its message. -/
theorem attended_of_sent (h : w.Inv) (hnote : (w.step e).2 = .sent i m (some pid)) :
    Attended (w.step e).1 i m (.scheduled pid) := by
  cases step_noteOf w e with
  | nothing hn | left hn => rw [hnote] at hn; cases hn
  | retry hc hchain hn =>
    rw [hnote, msgrcvRetry] at hn
    split at hn
    · split at hn
      · cases hn
      · split at hn
        · generalize doMsgrcv _ _ _ = result at hn
          cases result <;> cases hn
        · cases hn
    · cases hn
  | @call actor fromSigsys call t he ht hw hn =>
    have hcall := handle_note w actor call
    rw [← hn, hnote] at hcall
    cases call with
    | msgget a | msgctl a | msgrcv msqid msgp msgsz msgtyp msgflg u => exact hcall.elim
    | msgsnd a =>
      obtain ⟨htracees, hwoke⟩ := hcall
      obtain ⟨c, hc, hpid, hwaits, hmem⟩ := scheduled_of_wakeFirst hwoke.symm
      have hne : c.pid ≠ actor := by
        intro heq
        have hidle := (h.idle_caller ht hc heq).1
        rw [hwaits.1] at hidle
        cases hidle
      refine ⟨scheduleRetry c, ?_, hpid, ⟨rfl, rfl⟩, hwaits.2.1, hwaits.2.2⟩
      simp only [he, MsgWorld.step, hw, Bool.false_eq_true, if_false, ht]
      exact mem_updateTracee.2 ⟨scheduleRetry c, htracees ▸ hmem, (if_neg hne).symm⟩

/-- What was done about a message that stays queued goes on to be true: a tracee that was to
retry stays so, or retries and takes another message or is refused one, or leaves. -/
theorem Attended.step (hinv : r.world.Inv) (h : MessagesAccounted r) (e : MsgEvent)
    (hm : (m, a) ∈ (r.ledger.slots i).queued) :
    Attended (r.world.step e).1 i m
      (if (r.world.step e).2.About i then a.after e.actor (r.world.step e).2 else a) := by
  have hbefore := h.attended i _ hm
  have hfixed (hne : ∀ pid, a ≠ .scheduled pid) (hafter : Attended (r.world.step e).1 i m a) :
      Attended (r.world.step e).1 i m
        (if (r.world.step e).2.About i then a.after e.actor (r.world.step e).2 else a) := by
    rw [Attention.after_of_ne (hne _), ite_self]
    exact hafter
  cases a with
  | unattended | overtaken | deserted => exact hfixed (by simp) trivial
  | refused args tried u => exact hfixed (by simp) hbefore
  | scheduled pid =>
    obtain ⟨c, hc, hpid, hretry, hidx, hwanted⟩ := hbefore
    have hstays (hc' : c ∈ (r.world.step e).1.tracees) :
        Attended (r.world.step e).1 i m (.scheduled pid) := ⟨c, hc', hpid, hretry, hidx, hwanted⟩
    have hsame (hactor : pid = e.actor) : Attention.scheduled pid = .scheduled e.actor :=
      hactor ▸ rfl
    obtain hc' | ⟨hactor, hends⟩ := step_retrying hinv hc hretry.1 e
    · split
      · by_cases hactor : pid = e.actor
        · unfold Attention.after
          rw [if_pos (hsame hactor)]
          split
          · exact trivial
          · rename_i hnote
            exact refuses_of_step hinv hnote
          · exact trivial
          · exact hstays hc'
        · rw [Attention.after_of_ne fun heq => hactor (Attention.scheduled.inj heq)]
          exact hstays hc'
      · exact hstays hc'
    · have hpid' : pid = e.actor := hpid.symm.trans hactor.symm
      obtain ⟨u, hu⟩ | hleft := hends
      · obtain ⟨q, hq, hmem⟩ : ∃ q, contentAt r.world.queues i = some q ∧ m ∈ q.items := by
          have hitems : m ∈ queuedItems (contentAt r.world.queues i) := by
            rw [← h.mirrored]
            exact List.mem_map.2 ⟨_, hm, rfl⟩
          cases hq : contentAt r.world.queues i with
          | none => rw [hq] at hitems; cases hitems
          | some q => exact ⟨q, rfl, by rwa [hq] at hitems⟩
        have hb : CanBlock c.msgrcv := by
          cases hinv.phase c hc with
          | idle _ hidle => rw [hretry.1] at hidle; cases hidle
          | blocked _ hidle => rw [hretry.1] at hidle; cases hidle
          | scheduled _ _ _ hb => exact hb
        rw [note_msgrcvRetry (hidx ▸ hq) hretry.2, hidx] at hu
        obtain ⟨k, m', heq⟩ | ⟨tried, heq, hrefuses⟩ :=
          retryNote_of_wanted hb hmem hwanted i u
        · rw [hu, heq, if_pos (by exact rfl), Attention.after, if_pos (hsame hpid')]
          exact trivial
        · rw [hu, heq, if_pos (by exact rfl), Attention.after, if_pos (hsame hpid')]
          exact hrefuses
      · rw [hleft, if_pos (by exact trivial), Attention.after, if_pos (hsame hpid')]
        exact trivial

theorem MessagesAccounted.step (hinv : r.world.Inv) (h : MessagesAccounted r) (e : MsgEvent) :
    MessagesAccounted (r.step e) := by
  have hacc : Accounted (contentAt r.world.queues) r.ledger :=
    fun i => ⟨h.mirrored i, h.conserved i, h.counted i⟩
  have hacc' := (step_noted r.world e).accounted hacc e.actor
  refine ⟨fun i => (hacc' i).conserved, fun i => (hacc' i).counted,
    fun i => (hacc' i).mirrored, fun i p hp => ?_, ?_⟩
  · obtain ⟨a, ha, hnext⟩ | ⟨woke, hsent, hnext⟩ := mem_queued_record hp
    · rw [hnext]
      exact Attended.step hinv h e ha
    · rw [hnext]
      cases woke with
      | none => exact trivial
      | some pid => exact attended_of_sent hinv hsent
  · intro d hd hr p hp hwanted
    cases step_outcome hinv e d hd with
    | idle hr' => rw [hr] at hr'; cases hr'
    | retrying _ _ _ hr' => rw [hr] at hr'; cases hr'
    | scheduled _ _ _ hr' => rw [hr] at hr'; cases hr'
    | waiting c hmem hcr _ _ _ _ hidx hargs hnote =>
      rw [hidx] at hp
      rw [hargs] at hwanted
      obtain ⟨a, ha, hnext⟩ | ⟨woke, hsent, hnext⟩ := mem_queued_record hp
      · have hne := h.woken c hmem hcr _ ha hwanted
        rw [hnext]
        split
        · exact Attention.after_ne_unattended hne _ _
        · exact hne
      · -- a message just sent for which nobody was woken is one that nobody waits for
        rw [hsent] at hnote
        rw [hnext]
        cases woke with
        | none => exact absurd ⟨hcr, rfl, hwanted⟩ hnote
        | some pid => nofun
    | blocked _ _ _ _ _ hnote hno =>
      obtain ⟨a, ha, -⟩ | ⟨woke, hsent, -⟩ := mem_queued_record hp
      · have hq : p.1 ∈ queuedItems (contentAt r.world.queues d.waitingObjectIndex) := by
          rw [← h.mirrored]
          exact List.mem_map.2 ⟨_, ha, rfl⟩
        rw [hno p.1 hq] at hwanted
        cases hwanted
      · rw [hnote] at hsent
        cases hsent

theorem MsgRun.accounted_initial (pid : ℕ) : MessagesAccounted (MsgRun.initial pid) := by
  refine ⟨fun i => .refl _, fun i q hq => (nomatch hq), fun i => rfl, fun i p hp => ?_, ?_⟩
  · cases hp
  · intro c _ _ p hp
    cases hp

/-- After any run of the tracees of a namespace, every message that was sent was received by
one `msgrcv`, is still queued or went with its queue; the counters of every queue are right;
and a queued message that a blocked receiver wants is one for which another receiver was
woken when it was sent, and that one is still to retry or has retried without taking it. -/
theorem messages_accounted (pid : ℕ) (events : List MsgEvent) :
    ∀ r ∈ states MsgRun.step (MsgRun.initial pid) events, MessagesAccounted r := by
  intro r hr
  exact (invariant (A := fun _ => True)
    (I := fun r : MsgRun => r.world.Inv ∧ MessagesAccounted r)
    (fun r e _ h => ⟨h.1.step e, h.2.step h.1 e⟩)
    ⟨MsgWorld.inv_initial pid, MsgRun.accounted_initial pid⟩ (fun _ _ => trivial) r hr).2

/-- A message is sent and received. -/
theorem messages_accounted_received :
    MessagesAccounted (([.call 1 false (.msgget ⟨0, IPC_CREAT, true, true⟩), .leave 1 none,
      .call 1 false (.msgsnd ⟨1, ⟨1, [0x61]⟩, none, true, none⟩), .leave 1 none,
      .call 1 false (.msgrcv 1 0 8 0 0 none)] : List MsgEvent).foldl MsgRun.step
        (MsgRun.initial 1)) :=
  messages_accounted 1 _ _ (foldl_mem_states MsgRun.step _ _)

/-- Every message that was sent was received once or is still queued. -/
def EveryMessageKept (r : MsgRun) : Prop :=
  ∀ i, (r.ledger.slots i).sent.Perm
    ((r.ledger.slots i).received ++ queuedItems (contentAt r.world.queues i))

/-- No queued message is one that a blocked receiver wants. -/
def NoneStarved (w : MsgWorld) : Prop :=
  ∀ c ∈ w.tracees, c.waitReason = .waitQueueRecv →
    ∀ m ∈ queuedItems (contentAt w.queues c.waitingObjectIndex), Wanted c.msgrcv m = false

instance (w : MsgWorld) : Decidable (NoneStarved w) :=
  inferInstanceAs (Decidable (∀ c ∈ w.tracees, c.waitReason = .waitQueueRecv →
    ∀ m ∈ queuedItems (contentAt w.queues c.waitingObjectIndex), Wanted c.msgrcv m = false))

/-- A queue is made and a message sent to it. -/
def oneMessageSent : List MsgEvent :=
  [.call 1 false (.msgget ⟨0, IPC_CREAT, true, true⟩),
    .leave 1 none,
    .call 1 false (.msgsnd ⟨1, ⟨1, [0x61]⟩, none, true, none⟩),
    .leave 1 none]

/-- Two tracees wait for a message, and one is sent. -/
def oneMessageForTwo : List MsgEvent :=
  [.clone 1 2 false, .clone 1 3 false,
    .call 1 false (.msgget ⟨0, IPC_CREAT, true, true⟩),
    .leave 1 none,
    .call 2 false (.msgrcv 1 0 8 0 0 none),
    .call 3 false (.msgrcv 1 0 8 0 0 none),
    .call 1 false (.msgsnd ⟨1, ⟨1, [0x61]⟩, none, true, none⟩)]

/-- A message goes with its queue, and one message wakes one receiver: another one that wants it
stays blocked. -/
theorem message_lost_or_starved :
    (¬ ∀ (pid : ℕ) (events : List MsgEvent),
      ∀ r ∈ states MsgRun.step (MsgRun.initial pid) events, EveryMessageKept r) ∧
    ¬ ∀ (pid : ℕ) (events : List MsgEvent),
      ∀ r ∈ states MsgRun.step (MsgRun.initial pid) events, NoneStarved r.world := by
  constructor
  · intro h
    have hrun := h 1 (oneMessageSent ++ [.call 1 false (.msgctl ⟨1, IPC_RMID, 0⟩)]) _
      (foldl_mem_states _ _ _) 0
    revert hrun
    decide +kernel
  · intro h
    have hrun := h 1 oneMessageForTwo _ (foldl_mem_states _ _ _)
    revert hrun
    decide +kernel

/-! ### A retry finds its queue -/

/-- The slot that a tracee remembers holds the queue that it blocked on. -/
def SameQueue (r : MsgRun) (c : IpcTracee) : Prop :=
  ValidAt r.world.queues c.waitingObjectIndex ∧
    r.ledger.born c.waitingObjectIndex = r.ledger.blockedOn c.pid

/-- No assertion has failed, and every tracee that will retry finds the queue that it
blocked on. -/
structure RetriesSafely (r : MsgRun) : Prop where
  running : r.world.aborted = false
  same : ∀ c ∈ r.world.tracees, WillRetry c → SameQueue r c

/-- The condition on an event: no queue is removed while a tracee is scheduled to retry
on it. -/
def RemovesUnscheduled (r : MsgRun) : MsgEvent → Prop
  | .call pid _ (.msgctl a) =>
    callerOf pid r.world.tracees ≠ none → a.cmd &&& ~~~SYSVIPC_IPC_64 = IPC_RMID →
      ∀ idx, lookupIpcObject r.world.queues a.msqid = some idx →
        ∀ c ∈ r.world.tracees, WillRetry c → c.waitingObjectIndex ≠ idx
  | _ => True

/-- What holds of a run beside the condition: the tracees are in their phases, and a blocked
tracee remembers the slot of a queue that still lives. -/
structure MsgRun.Inv (r : MsgRun) : Prop where
  world : r.world.Inv
  known : ∀ c ∈ r.world.tracees, c.waitReason = .waitQueueRecv → SameQueue r c

theorem note_msgrcvRetry_ne (w : MsgWorld) (c : IpcTracee) (u : Option ℤ) (idx : ℕ) :
    (msgrcvRetry w c u).2 ≠ .blocked idx ∧ (msgrcvRetry w c u).2 ≠ .removed idx := by
  rw [msgrcvRetry]
  split
  · split
    · exact ⟨by simp, by simp⟩
    · split
      · dsimp only
        cases doMsgrcv _ _ _ <;> exact ⟨by simp [retryNote, Attempt.note],
          by simp [retryNote, Attempt.note]⟩
      · exact ⟨by simp, by simp⟩
  · exact ⟨by simp, by simp⟩

/-- Only a `msgrcv` that is not a retry blocks. -/
theorem step_blocked (h : (w.step e).2 = .blocked idx) :
    ∃ t, callerOf e.actor w.tracees = some t := by
  cases step_noteOf w e with
  | nothing hn | left hn => rw [h] at hn; cases hn
  | call he ht =>
    rw [he]
    exact ⟨_, ht⟩
  | retry hc hchain hn => exact absurd (hn.symm.trans h) (note_msgrcvRetry_ne w _ _ idx).1

/-- Only a `msgctl` removes a queue. -/
theorem step_removed (h : (w.step e).2 = .removed idx) :
    ∃ pid fromSigsys a, e = .call pid fromSigsys (.msgctl a) ∧ callerOf pid w.tracees ≠ none ∧
      a.cmd &&& ~~~SYSVIPC_IPC_64 = IPC_RMID ∧ lookupIpcObject w.queues a.msqid = some idx := by
  cases step_noteOf w e with
  | nothing hn | left hn => rw [h] at hn; cases hn
  | retry hc hchain hn => exact absurd (hn.symm.trans h) (note_msgrcvRetry_ne w _ _ idx).2
  | @call pid fromSigsys call t he ht hw hn =>
    have hnote := handle_note w pid call
    rw [← hn, h] at hnote
    cases call with
    | msgctl a => exact ⟨pid, fromSigsys, a, he, by simp [ht], hnote⟩
    | msgget a | msgsnd a | msgrcv msqid msgp msgsz msgtyp msgflg u => exact hnote.elim

/-- A tracee keeps its queue in an event that neither removes the queue nor lets the tracee
block anew. -/
theorem SameQueue.step (h : SameQueue r c) (e : MsgEvent) (hpid : d.pid = c.pid)
    (hidx : d.waitingObjectIndex = c.waitingObjectIndex)
    (hremoved : (r.world.step e).2 ≠ .removed c.waitingObjectIndex)
    (hblocked : ∀ idx, (r.world.step e).2 = .blocked idx → c.pid ≠ e.actor) :
    SameQueue (r.step e) d := by
  obtain ⟨hvalid, hborn⟩ := h
  rw [SameQueue, hpid, hidx]
  simp only [MsgRun.step, MsgLedger.record]
  rw [validAt_iff_contentAt] at hvalid ⊢
  obtain ⟨q, hq⟩ := hvalid
  have hnoted := step_noted r.world e
  generalize (r.world.step e).2 = note at hnoted hremoved hblocked
  generalize contentAt (r.world.step e).1.queues = after at hnoted
  cases hnoted with
  | nothing heq | refused heq | left heq => exact ⟨⟨q, heq ▸ hq⟩, by simpa using hborn⟩
  | blocked _ heq =>
    have hne : c.pid ≠ e.actor := hblocked _ rfl
    exact ⟨⟨q, heq ▸ hq⟩, by simpa [hne] using hborn⟩
  | @created idx hnew heq =>
    have hne : c.waitingObjectIndex ≠ idx := by
      rintro rfl
      rw [hnew] at hq
      cases hq
    refine ⟨⟨q, by rw [heq, Function.update_of_ne hne]; exact hq⟩, ?_⟩
    rw [if_neg fun hc => hne (MsgNote.created.inj hc).symm]
    exact hborn
  | @sent idx m woke q' hq' heq =>
    refine ⟨?_, by simpa using hborn⟩
    rw [heq, Function.update_apply]
    split
    · exact ⟨_, rfl⟩
    · exact ⟨q, hq⟩
  | @received idx k len m q' hq' hk heq =>
    refine ⟨?_, by simpa using hborn⟩
    rw [heq, Function.update_apply]
    split
    · exact ⟨_, rfl⟩
    · exact ⟨q, hq⟩
  | @removed idx heq =>
    have hne : c.waitingObjectIndex ≠ idx := by
      rintro rfl
      exact hremoved rfl
    exact ⟨⟨q, by rw [heq, Function.update_of_ne hne]; exact hq⟩, by simpa using hborn⟩

/-- A tracee that is not idle does not make the call that blocks. -/
theorem ne_actor_of_blocked (h : w.Inv) (hc : c ∈ w.tracees)
    (hbusy : ¬ (c.waitReason = .notWaiting ∧ c.chainState = .notChained)) :
    ∀ idx, (w.step e).2 = .blocked idx → c.pid ≠ e.actor := by
  intro idx hb hpid
  obtain ⟨t, ht⟩ := step_blocked hb
  exact hbusy (h.idle_caller ht hc hpid)

theorem MsgRun.Inv.step (h : r.Inv) (e : MsgEvent) : (r.step e).Inv := by
  refine ⟨h.world.step e, ?_⟩
  intro d hd hr
  cases step_outcome h.world e d hd with
  | idle hr' => rw [hr] at hr'; cases hr'
  | retrying _ _ _ hr' => rw [hr] at hr'; cases hr'
  | scheduled _ _ _ hr' => rw [hr] at hr'; cases hr'
  | waiting c hmem hcr _ _ _ hpid hidx _ hnote =>
    refine (h.known c hmem hcr).step e hpid hidx ?_
      (ne_actor_of_blocked h.world hmem (by rw [hcr]; nofun))
    intro hremoved
    rw [hremoved] at hnote
    exact hnote rfl
  | blocked _ _ _ _ hpid hnote _ =>
    have hnoted := step_noted r.world e
    rw [hnote] at hnoted
    cases hnoted with
    | blocked hq heq =>
      refine ⟨?_, ?_⟩
      · rw [validAt_iff_contentAt]
        exact ⟨_, by rw [MsgRun.step, heq]; exact hq⟩
      · simp only [MsgRun.step, MsgLedger.record, hnote, hpid, if_true]
        exact if_neg nofun

theorem msgrcvRetry_aborted (hw : w.aborted = false)
    (h : c.statusAfterWait = -EAGAIN → ValidAt w.queues c.waitingObjectIndex) :
    (msgrcvRetry w c u).1.aborted = false := by
  rw [msgrcvRetry]
  split
  · rename_i hst
    obtain ⟨q, hq, hv⟩ := h hst
    rw [hq]
    dsimp only
    rw [if_pos hv]
    exact hw
  · exact hw

theorem resume_aborted (hw : w.aborted = false)
    (h : WillRetry c → ValidAt w.queues c.waitingObjectIndex) :
    (w.resume c u).1.aborted = false := by
  simp only [MsgWorld.resume]
  split
  · rename_i hchain
    exact msgrcvRetry_aborted hw fun hst => h ⟨hchain, hst⟩
  · exact hw

/-- No assertion fails while every tracee that will retry remembers a live queue. -/
theorem step_aborted (hw : w.aborted = false)
    (h : ∀ c ∈ w.tracees, WillRetry c → ValidAt w.queues c.waitingObjectIndex) (e : MsgEvent) :
    (w.step e).1.aborted = false := by
  unfold MsgWorld.step
  rw [if_neg (by simp [hw])]
  cases e with
  | call pid fromSigsys call =>
    dsimp only
    split
    · exact hw
    · cases call with
      | msgget a => exact hw
      | msgsnd a =>
        simp only [MsgWorld.handle, msgsnd]
        split <;> exact hw
      | msgrcv msqid msgp msgsz msgtyp msgflg u =>
        simp only [MsgWorld.handle, msgrcv]
        split
        · exact hw
        · split <;> exact hw
      | msgctl a =>
        simp only [MsgWorld.handle, msgctl]
        split
        · exact hw
        · split
          · exact hw
          · split <;> exact hw
  | enter pid u =>
    dsimp only
    split
    · exact hw
    · rename_i c hf
      split
      · exact resume_aborted hw (h c (List.mem_of_find?_eq_some hf))
      · exact hw
  | leave pid u =>
    dsimp only
    split
    · exact hw
    · rename_i c hf
      split
      · exact resume_aborted hw (h c (List.mem_of_find?_eq_some hf))
      · exact hw
  | clone parent child thread => exact hw
  | exit pid => exact hw

/-- A removal does nothing else to the queues. -/
theorem step_removal (hw : w.aborted = false) (fromSigsys : Bool) {a : MsgctlArgs}
    (hcaller : callerOf pid w.tracees ≠ none) (hcmd : a.cmd &&& ~~~SYSVIPC_IPC_64 = IPC_RMID)
    (hl : lookupIpcObject w.queues a.msqid = some idx) :
    (w.step (.call pid fromSigsys (.msgctl a))).1.queues =
        w.queues.modify idx (IpcObject.removed .empty) ∧
      (w.step (.call pid fromSigsys (.msgctl a))).2 = .removed idx := by
  obtain ⟨t, ht⟩ := Option.ne_none_iff_exists'.1 hcaller
  simp only [MsgWorld.step, hw, Bool.false_eq_true, if_false, ht, MsgWorld.handle, msgctl, hl,
    hcmd, if_true, and_self]

/-- One event keeps the retries safe exactly when it removes no queue of a scheduled
tracee. -/
theorem retriesSafely_step (h : r.Inv) (hsafe : RetriesSafely r) (e : MsgEvent) :
    RetriesSafely (r.step e) ↔ RemovesUnscheduled r e := by
  constructor
  · intro hnext
    unfold RemovesUnscheduled
    split
    · rename_i pid fromSigsys a
      intro hcaller hcmd idx hl c hc hretry hidx
      obtain ⟨hqueues, hnote⟩ := step_removal hsafe.running fromSigsys hcaller hcmd hl
      have hmem := (step_retrying h.world hc hretry.1 (.call pid fromSigsys (.msgctl a))).resolve_right
        (by
          rintro ⟨-, ⟨u, hu⟩ | hleft⟩
          · exact (note_msgrcvRetry_ne r.world c u idx).2 (hu.symm.trans hnote)
          · rw [hnote] at hleft
            cases hleft)
      have hvalid := (hnext.same c hmem hretry).1
      rw [MsgRun.step, hqueues, validAt_modify_removed] at hvalid
      exact hvalid.1 hidx
    · exact trivial
  · intro hcond
    have hremoved : ∀ c ∈ r.world.tracees, WillRetry c →
        (r.world.step e).2 ≠ .removed c.waitingObjectIndex := by
      intro c hc hretry hnote
      obtain ⟨pid, fromSigsys, a, rfl, hcaller, hcmd, hl⟩ := step_removed hnote
      exact hcond hcaller hcmd _ hl c hc hretry rfl
    refine ⟨step_aborted hsafe.running (fun c hc hretry => (hsafe.same c hc hretry).1) e, ?_⟩
    intro d hd hretry
    cases step_outcome h.world e d hd with
    | idle _ hchain => rw [hretry.1] at hchain; cases hchain
    | waiting _ _ _ _ hchain => rw [hretry.1] at hchain; cases hchain
    | blocked _ hchain => rw [hretry.1] at hchain; cases hchain
    | retrying c hmem hcc _ _ _ _ hpid hidx hstatus =>
      have hc : WillRetry c := ⟨hcc, hstatus ▸ hretry.2⟩
      exact (hsafe.same c hmem hc).step e hpid hidx (hremoved c hmem hc)
        (ne_actor_of_blocked h.world hmem (by rw [hcc]; nofun))
    | scheduled c hmem hcr _ _ _ _ hpid hidx hnote =>
      obtain ⟨m, hnote⟩ := hnote
      refine (h.known c hmem hcr).step e hpid hidx (by rw [hnote]; nofun) ?_
      intro idx hb
      rw [hnote] at hb
      cases hb

theorem MsgRun.inv_initial (pid : ℕ) : (MsgRun.initial pid).Inv := by
  refine ⟨MsgWorld.inv_initial pid, fun c hc hr => ?_⟩
  rw [List.mem_singleton.1 hc] at hr
  cases hr

theorem MsgRun.retriesSafely_initial (pid : ℕ) : RetriesSafely (MsgRun.initial pid) := by
  refine ⟨rfl, fun c hc hretry => ?_⟩
  rw [List.mem_singleton.1 hc] at hretry
  cases hretry.1

/-- In a run of the tracees of a namespace every tracee that will retry its `msgrcv` finds the
queue that it blocked on, and no assertion fails, exactly when no queue is removed while a
tracee is scheduled to retry on it. -/
theorem retriesSafely_iff (pid : ℕ) (events : List MsgEvent) :
    (∀ r ∈ states MsgRun.step (MsgRun.initial pid) events, RetriesSafely r) ↔
      AllSteps MsgRun.step RemovesUnscheduled (MsgRun.initial pid) events :=
  states_iff_allSteps (A := fun _ => True) (fun _ e _ h => h.step e)
    (fun _ e _ h hsafe => retriesSafely_step h hsafe e) (MsgRun.inv_initial pid)
    (MsgRun.retriesSafely_initial pid) fun _ _ => trivial

/-- A queue is removed after a message for it has woken a tracee, and the tracee retries. -/
theorem removal_before_retry_aborts :
    ¬ ∀ (pid : ℕ) (events : List MsgEvent),
      ∀ r ∈ states MsgRun.step (MsgRun.initial pid) events, r.world.aborted = false := by
  intro h
  have hrun := h 1
    [.clone 1 2 false,
      .call 1 false (.msgget ⟨0, IPC_CREAT, true, true⟩),
      .leave 1 none,
      .call 2 false (.msgrcv 1 0 8 0 0 none),
      .call 1 false (.msgsnd ⟨1, ⟨1, [0x61]⟩, none, true, none⟩),
      .leave 1 none,
      .call 1 false (.msgctl ⟨1, IPC_RMID, 0⟩),
      .leave 2 none] _ (foldl_mem_states _ _ _)
  revert hrun
  decide +kernel

end NeoProot.SysVIpc
