import NeoProot.Backend.Session

/-!
# One outstanding request

The daemon waits for a job at its client and otherwise takes the next command, so a
command that finds another outstanding is started all the same; and none is ever told
that the session is busy.

## Main definitions

* `Exclusive` — no request was started beside another, and a late one was told so.

## Main results

* `exclusive_iff` — a run is exclusive exactly when no late command is taken.
* `exclusive_of_quiet` — while clients stay and jobs end with `done`, the daemon listens
  only when nothing is outstanding.
-/

namespace NeoProot.UmSession
open Run

variable {s : Session} {id : ℕ} {input : Input}

/-- No request was started while another was outstanding, and the commands that came in
such a time were answered `BUSY`. -/
def Exclusive (s : Session) : Prop :=
  s.overlapped = false ∧ ∀ a ∈ s.answers, a.1 = true → a.2 = .busy

instance (s : Session) : Decidable (Exclusive s) := inferInstanceAs (Decidable (_ ∧ _))

/-- The daemon takes no command that waited while a request was outstanding. -/
def NoneLate (s : Session) : Event → Prop
  | .accept _ _ =>
    s.phase = .polled → s.readable = true →
      ∀ w ∈ s.pending.head?, IsExec w.received → w.late = false
  | _ => True

/-! ### What a step does to the record -/

theorem checkClockStep_record (s : Session) (deadlineOver claimOver graceOver alive : Bool) :
    (checkClockStep s deadlineOver claimOver graceOver alive).answers = s.answers ∧
      (checkClockStep s deadlineOver claimOver graceOver alive).overlapped = s.overlapped := by
  grind [checkClockStep, umDaemonEndJob, refuse]

/-- Only taking a client is an answer or the start of a request. -/
theorem act_record (s : Session) (e : Event) (h : ∀ queued leaves, e ≠ .accept queued leaves) :
    (act s e).answers = s.answers ∧ (act s e).overlapped = s.overlapped := by
  cases e with
  | arrive received => exact ⟨rfl, rfl⟩
  | turn input hangup =>
    simp only [act]
    split
    · exact ⟨rfl, rfl⟩
    · exact ⟨rfl, rfl⟩
  | checkDone => grind [act, checkDoneStep, umDaemonEndJob]
  | checkClock deadlineOver claimOver graceOver alive =>
    simp only [act]
    split
    · exact checkClockStep_record s deadlineOver claimOver graceOver alive
    · exact ⟨rfl, rfl⟩
  | remove empty => grind [act, removeStep]
  | accept queued leaves => exact absurd rfl (h queued leaves)
  | guest event =>
    have hkept := guestStep_kept s event
    exact ⟨hkept.answers, hkept.overlapped⟩

theorem umDaemonStartJob_record (s : Session) (file : Bytes) (timeoutMs : ℕ) (queued : Bool) :
    (umDaemonStartJob s file timeoutMs queued).answers = s.answers ∧
      (umDaemonStartJob s file timeoutMs queued).overlapped =
        (s.overlapped || decide (Outstanding s)) := by
  rw [umDaemonStartJob]
  split
  · exact ⟨rfl, rfl⟩
  · exact ⟨rfl, rfl⟩

/-- A command that is taken is answered, and started beside what is outstanding. -/
theorem umDaemonAccept_exec {w : Waiting} {pending : List Waiting} (queued leaves : Bool)
    (hpending : s.pending = w :: pending) (hexec : IsExec w.received) :
    (umDaemonAccept s queued leaves).answers =
        (w.late, umDaemonHandle queued w.received) :: s.answers ∧
      (umDaemonAccept s queued leaves).overlapped = (s.overlapped || decide (Outstanding s)) := by
  have hwhole := hexec
  obtain ⟨file, timeoutMs, hfile⟩ := hexec
  simp only [umDaemonAccept, hpending, hfile, if_pos hwhole]
  obtain ⟨hanswers, hover⟩ := umDaemonStartJob_record
    { s with
      pending := pending, answers := (w.late, umDaemonHandle queued w.received) :: s.answers
      phase := if leaves then .stopped else .polling } file timeoutMs queued
  exact ⟨hanswers, hover⟩

/-- Any other client leaves the record as it is. -/
theorem umDaemonAccept_other (queued leaves : Bool)
    (h : ∀ w ∈ s.pending.head?, ¬ IsExec w.received) :
    (umDaemonAccept s queued leaves).answers = s.answers ∧
      (umDaemonAccept s queued leaves).overlapped = s.overlapped := by
  rw [umDaemonAccept]
  split
  · exact ⟨rfl, rfl⟩
  · rename_i w pending hpending
    have hnot : ¬ IsExec w.received := h w (by rw [hpending]; rfl)
    simp only [if_neg hnot]
    split
    · rename_i file timeoutMs hfile
      exact absurd ⟨file, timeoutMs, hfile⟩ hnot
    · exact ⟨rfl, rfl⟩
    · exact ⟨rfl, rfl⟩

/-! ### Late clients -/

/-- While a request is outstanding, all that wait are late. -/
def Marked (s : Session) : Prop := Outstanding s → ∀ w ∈ s.pending, w.late = true

theorem marked_step (s : Session) (e : Event) : Marked (step s e) := by
  intro hout w hw
  obtain ⟨v, -, rfl⟩ := List.mem_map.1 hw
  have hact : Outstanding (act s e) := hout
  simp [hact]

/-- What leaves the record as it is keeps a session exclusive. -/
theorem exclusive_of_record {t : Session} (h : Exclusive s)
    (hrecord : t.answers = s.answers ∧ t.overlapped = s.overlapped) : Exclusive (markLate t) := by
  refine ⟨hrecord.2.trans h.1, ?_⟩
  intro a ha
  refine h.2 a ?_
  rw [← hrecord.1]
  exact ha

/-- Taking a command is right if and only if it is not late. -/
theorem exclusive_take {w : Waiting} {pending : List Waiting} (queued leaves : Bool)
    (hmarked : Marked s) (h : Exclusive s) (hpending : s.pending = w :: pending)
    (hexec : IsExec w.received) :
    Exclusive (markLate (umDaemonAccept s queued leaves)) ↔ w.late = false := by
  obtain ⟨hanswers, hover⟩ := umDaemonAccept_exec queued leaves hpending hexec
  constructor
  · intro hexclusive
    by_contra hlate
    have hmem : (w.late, umDaemonHandle queued w.received) ∈
        (markLate (umDaemonAccept s queued leaves)).answers := by
      change _ ∈ (umDaemonAccept s queued leaves).answers
      rw [hanswers]
      exact List.mem_cons_self
    refine umDaemonHandle_ne_busy queued w.received (hexclusive.2 _ hmem ?_)
    simpa using hlate
  · intro hlate
    have hcalm : ¬ Outstanding s := by
      intro hout
      have hmark := hmarked hout w (by rw [hpending]; exact List.mem_cons_self)
      rw [hlate] at hmark
      cases hmark
    refine ⟨?_, ?_⟩
    · change (umDaemonAccept s queued leaves).overlapped = false
      rw [hover, h.1, decide_eq_false hcalm]
      rfl
    · intro a ha
      change a ∈ (umDaemonAccept s queued leaves).answers at ha
      rw [hanswers] at ha
      rcases List.mem_cons.1 ha with rfl | ha
      · intro htrue
        rw [hlate] at htrue
        cases htrue
      · exact h.2 a ha

/-- One step is exclusive if and only if it takes no late command. -/
theorem exclusive_step (hmarked : Marked s) (h : Exclusive s) (e : Event) :
    Exclusive (step s e) ↔ NoneLate s e := by
  by_cases haccept : ∃ queued leaves, e = .accept queued leaves
  · obtain ⟨queued, leaves, rfl⟩ := haccept
    by_cases hlistens : s.phase = .polled ∧ s.readable = true
    · have hact : act s (.accept queued leaves) = umDaemonAccept s queued leaves := by
        simp only [act, if_pos hlistens.1, if_pos hlistens.2]
      rw [step, hact]
      by_cases hexec : ∃ w ∈ s.pending.head?, IsExec w.received
      · obtain ⟨w, hw, hexec⟩ := hexec
        obtain ⟨pending, hpending⟩ := List.head?_eq_some_iff.1 hw
        rw [exclusive_take queued leaves hmarked h hpending hexec]
        constructor
        · intro hlate _ _ v hv _
          obtain rfl : v = w := Option.some.inj (hv.symm.trans hw)
          exact hlate
        · intro hnone
          exact hnone hlistens.1 hlistens.2 w hw hexec
      · have hnot : ∀ w ∈ s.pending.head?, ¬ IsExec w.received := fun w hw hx => hexec ⟨w, hw, hx⟩
        exact iff_of_true (exclusive_of_record h (umDaemonAccept_other queued leaves hnot))
          fun _ _ w hw hx => absurd hx (hnot w hw)
    · have hact : (act s (.accept queued leaves)).answers = s.answers ∧
          (act s (.accept queued leaves)).overlapped = s.overlapped := by
        simp only [act]
        split
        · rw [if_neg fun hr => hlistens ⟨‹_›, hr⟩]
          exact ⟨rfl, rfl⟩
        · exact ⟨rfl, rfl⟩
      exact iff_of_true (exclusive_of_record h hact)
        fun hphase hread => absurd ⟨hphase, hread⟩ hlistens
  · have hact := act_record s e fun queued leaves heq => haccept ⟨queued, leaves, heq⟩
    refine iff_of_true (exclusive_of_record h hact) ?_
    cases e with
    | accept queued leaves => exact absurd ⟨queued, leaves, rfl⟩ haccept
    | _ => trivial

/-- In a run of the session no request is started beside another and each late command
is told `BUSY`, if and only if the daemon takes no late command. -/
theorem exclusive_iff (es : List Event) :
    (∀ s ∈ states step initial es, Exclusive s) ↔ AllSteps step NoneLate initial es := by
  apply states_iff_allSteps_of_kept (I := Marked)
  · intro s e _ _ _
    exact marked_step s e
  · intro s e hmarked h
    exact exclusive_step hmarked h e
  · intro _ w hw
    cases hw
  · exact ⟨rfl, fun a ha => nomatch ha⟩

/-- A client that sends `true` and leaves, and one that sends it next. -/
def clientLeaves : List Event :=
  let command := ascii "EXEC 8 0\n\n4\ntrue\n"
  [.arrive command, .turn .nothing false, .accept true false, .turn .gone false, .checkDone,
    .checkClock false false false true, .accept true false, .arrive command,
    .turn .nothing false, .checkDone, .checkClock false false false true, .accept true false]

/-- The second command is started while the first is outstanding. -/
theorem client_leaves_overlaps : ¬ ∀ s ∈ states step initial clientLeaves, Exclusive s := by
  intro h
  have hlast := h _ (foldl_mem_states step initial clientLeaves)
  revert hlast
  decide +kernel

/-! ### Quiet runs -/

/-- Clients stay until they are answered, files of the queue are written, and the daemon
ends no job before it is done. -/
def Quiet (s : Session) : Event → Prop
  | .turn input hangup => input ≠ .gone ∧ hangup = false
  | .checkClock _ claimOver graceOver alive =>
    (s.daemon.claimed = false → claimOver = false) ∧ graceOver = false ∧ alive = true
  | .accept queued _ => queued = true
  | _ => True

/-- Where the one request of the job is: in the queue, with the guest, or done. -/
inductive Held (s : Session) (id : ℕ) : Prop
  | queued (entry : ℕ × Bytes) (hqueue : s.queue = [(id, entry)])
      (hguest : s.guest = .looking ∨ s.guest = .chosen id)
      (hdone : ∀ d, s.results id = some d → d.done = none)
  | made (entry : ℕ × Bytes) (hqueue : s.queue = [(id, entry)]) (hguest : s.guest = .made id)
      (d : ResultDirectory) (hd : s.results id = some d) (hdone : d.done = none)
  | claimed (n : ℕ) (hqueue : s.queue = [])
      (hguest : s.guest = .claimed id n ∨ s.guest = .parsed id n ∨ s.guest = .running id n)
      (d : ResultDirectory) (hd : s.results id = some d) (hdone : d.done = none)
  | done (status : ℕ) (hqueue : s.queue = []) (hguest : s.guest = .looking)
      (d : ResultDirectory) (hd : s.results id = some d) (hdone : d.done = some status)

/-- A guest that publishes `done` for the job finishes it. -/
theorem held_publishDone {d : ResultDirectory} (status : ℕ) (hqueue : s.queue = [])
    (hd : s.results id = some d) : Held (publishDone s id status) id := by
  refine Held.done status ?_ rfl { d with done := some status } ?_ rfl
  · exact hqueue
  · simp [publishDone, setDirectory, hd]

/-- The guest keeps the request of the job in one of its places. -/
theorem Held.guestStep (h : Held s id) (e : GuestEvent) : Held (guestStep s e) id := by
  cases h with
  | queued entry hqueue hguest hdone =>
    have hsame : Held s id := .queued entry hqueue hguest hdone
    cases e with
    | look i =>
      simp only [UmSession.guestStep]
      split
      · rename_i hlook
        have hi : i = id := by simpa [hqueue] using hlook.2
        exact .queued entry hqueue (.inr (by rw [hi])) hdone
      · exact hsame
    | makeDirectory ok =>
      rcases hguest with hguest | hguest
      · simpa only [UmSession.guestStep, hguest] using hsame
      · simp only [UmSession.guestStep, hguest]
        split
        · refine Held.made entry ?_ rfl ((s.results id).getD ⟨none, none⟩) ?_ ?_
          · exact hqueue
          · simp [setDirectory]
          · cases hd : s.results id with
            | none => rfl
            | some d => exact hdone d hd
        · exact .queued entry hqueue (.inl rfl) hdone
    | claim =>
      rcases hguest with hguest | hguest <;> simpa only [UmSession.guestStep, hguest] using hsame
    | read cwdOk =>
      rcases hguest with hguest | hguest <;> simpa only [UmSession.guestStep, hguest] using hsame
    | run =>
      rcases hguest with hguest | hguest <;> simpa only [UmSession.guestStep, hguest] using hsame
    | finish status =>
      rcases hguest with hguest | hguest <;> simpa only [UmSession.guestStep, hguest] using hsame
  | made entry hqueue hguest d hd hdone =>
    have hsame : Held s id := .made entry hqueue hguest d hd hdone
    cases e with
    | look i => simpa [UmSession.guestStep, hguest] using hsame
    | claim =>
      obtain ⟨n, file⟩ := entry
      simp only [UmSession.guestStep, hguest, hqueue, hd, List.find?_cons, decide_true]
      refine Held.claimed n ?_ (.inl rfl) { d with request := some (n, file) } ?_ hdone
      · simp
      · simp [setDirectory]
    | makeDirectory ok => simpa only [UmSession.guestStep, hguest] using hsame
    | read cwdOk => simpa only [UmSession.guestStep, hguest] using hsame
    | run => simpa only [UmSession.guestStep, hguest] using hsame
    | finish status => simpa only [UmSession.guestStep, hguest] using hsame
  | claimed n hqueue hguest d hd hdone =>
    have hsame : Held s id := .claimed n hqueue hguest d hd hdone
    cases e with
    | look i =>
      rcases hguest with hguest | hguest | hguest <;>
        simpa [UmSession.guestStep, hguest] using hsame
    | makeDirectory ok =>
      rcases hguest with hguest | hguest | hguest <;>
        simpa only [UmSession.guestStep, hguest] using hsame
    | claim =>
      rcases hguest with hguest | hguest | hguest <;>
        simpa only [UmSession.guestStep, hguest] using hsame
    | read cwdOk =>
      rcases hguest with hguest | hguest | hguest
      · simp only [UmSession.guestStep, hguest]
        split
        · rename_i serial file hrequest
          split
          · exact held_publishDone 125 hqueue hd
          · split
            · exact held_publishDone 126 hqueue hd
            · exact .claimed serial hqueue (.inr (.inl rfl)) d hd hdone
        · exact held_publishDone 125 hqueue hd
      · simpa only [UmSession.guestStep, hguest] using hsame
      · simpa only [UmSession.guestStep, hguest] using hsame
    | run =>
      rcases hguest with hguest | hguest | hguest
      · simpa only [UmSession.guestStep, hguest] using hsame
      · simp only [UmSession.guestStep, hguest, hd, Option.isSome_some, if_true]
        exact .claimed n hqueue (.inr (.inr rfl)) d hd hdone
      · simpa only [UmSession.guestStep, hguest] using hsame
    | finish status =>
      rcases hguest with hguest | hguest | hguest
      · simpa only [UmSession.guestStep, hguest] using hsame
      · simpa only [UmSession.guestStep, hguest] using hsame
      · simp only [UmSession.guestStep, hguest]
        exact held_publishDone status hqueue hd
  | done status hqueue hguest d hd hdone =>
    have hsame : Held s id := .done status hqueue hguest d hd hdone
    cases e with
    | look i => simpa [UmSession.guestStep, hguest, hqueue] using hsame
    | _ => simpa only [UmSession.guestStep, hguest] using hsame

/-- The guest works on no directory but the job's. -/
theorem Held.directory (h : Held s id) : ∀ i ∈ s.guest.directory, i = id := by
  intro i hi
  cases h with
  | queued _ _ hguest _ =>
    rcases hguest with hguest | hguest
    · simp [hguest, Guest.directory] at hi
    · simpa [hguest, Guest.directory] using hi.symm
  | made _ _ hguest _ _ _ => simpa [hguest, Guest.directory] using hi.symm
  | claimed n _ hguest _ _ _ =>
    rcases hguest with hguest | hguest | hguest
    · simpa [hguest, Guest.directory] using hi.symm
    · simpa [hguest, Guest.directory] using hi.symm
    · simpa [hguest, Guest.directory] using hi.symm
  | done _ _ hguest _ _ _ => simp [hguest, Guest.directory] at hi

/-- With an empty queue a guest that looks for a request stays as it is. -/
theorem guestStep_idle (hqueue : s.queue = []) (hguest : s.guest = .looking) (e : GuestEvent) :
    guestStep s e = s := by
  cases e with
  | look i => simp [guestStep, hqueue]
  | _ => simp only [guestStep, hguest]

/-- The daemon has one job with its request, or nothing is outstanding; and it listens
only in the second case. -/
structure OneJob (s : Session) : Prop where
  alone : s.overlapped = false
  fresh : ∀ i, s.daemon.id < i → s.results i = none
  idle : s.daemon.running = false → s.queue = [] ∧ s.guest = .looking
  job : s.daemon.running = true →
    s.daemon.client = true ∧ s.daemon.directory = some s.daemon.id ∧ Held s s.daemon.id
  watching : s.phase = .looked ∨ s.phase = .undone → s.daemon.running = true
  removing : ∀ id stops, s.phase = .removing id stops → s.daemon.running = false
  listening : s.phase ≠ .polling → s.phase ≠ .stopped → s.readable = true →
    s.daemon.running = false

/-- Where the job's request is does not depend on the daemon's record. -/
theorem Held.congr {t : Session} (h : Held s id) (hqueue : t.queue = s.queue)
    (hguest : t.guest = s.guest) (hresults : t.results id = s.results id) : Held t id := by
  cases h with
  | queued entry hq hg hd =>
    exact .queued entry (hqueue.trans hq) (hguest ▸ hg) fun d hd' => hd d (hresults ▸ hd')
  | made entry hq hg d hd hdone =>
    exact .made entry (hqueue.trans hq) (hguest.trans hg) d (hresults.trans hd) hdone
  | claimed n hq hg d hd hdone =>
    exact .claimed n (hqueue.trans hq) (hguest ▸ hg) d (hresults.trans hd) hdone
  | done status hq hg d hd hdone =>
    exact .done status (hqueue.trans hq) (hguest.trans hg) d (hresults.trans hd) hdone

theorem OneJob.guest (h : OneJob s) (e : GuestEvent) : OneJob (guestStep s e) := by
  obtain ⟨hdaemon, hphase, hreadable, -, -, -, hoverlapped⟩ := guestStep_kept s e
  cases hrun : s.daemon.running with
  | false =>
    obtain ⟨hqueue, hguest⟩ := h.idle hrun
    rw [guestStep_idle hqueue hguest]
    exact h
  | true =>
    obtain ⟨hclient, hdir, hheld⟩ := h.job hrun
    refine ⟨hoverlapped.trans h.alone, ?_, ?_, ?_, ?_, ?_, ?_⟩
    · intro i hi
      rw [hdaemon] at hi
      rw [guestStep_results (fun j hj => hheld.directory j hj ▸ (by omega)) e]
      exact h.fresh i hi
    · intro hidle
      rw [hdaemon, hrun] at hidle
      cases hidle
    · intro _
      rw [hdaemon]
      exact ⟨hclient, hdir, hheld.guestStep e⟩
    · rw [hphase, hdaemon]
      exact h.watching
    · rw [hphase, hdaemon]
      exact h.removing
    · rw [hphase, hreadable, hdaemon]
      exact h.listening

/-- A client that stays changes nothing of the job but whether it is stopped. -/
theorem umDaemonJobInput_stays (d : Daemon) (h : input ≠ .gone) :
    (umDaemonJobInput d input false).running = d.running ∧
      (umDaemonJobInput d input false).id = d.id ∧
      (umDaemonJobInput d input false).client = d.client ∧
      (umDaemonJobInput d input false).directory = d.directory := by
  cases input with
  | nothing => exact ⟨rfl, rfl, rfl, rfl⟩
  | ping => exact ⟨rfl, rfl, rfl, rfl⟩
  | gone => exact absurd rfl h
  | signal number =>
    simp only [umDaemonJobInput, Bool.false_eq_true, if_false]
    split
    · exact ⟨rfl, rfl, rfl, rfl⟩
    · exact ⟨rfl, rfl, rfl, rfl⟩

/-- What `turnStep` leaves of the record of the daemon when the client stays. -/
theorem turnStep_stays (s : Session) (h : input ≠ .gone) :
    (turnStep s input false).daemon.running = s.daemon.running ∧
      (turnStep s input false).daemon.id = s.daemon.id ∧
      (turnStep s input false).daemon.client = s.daemon.client ∧
      (turnStep s input false).daemon.directory = s.daemon.directory := by
  simp only [turnStep]
  split
  · exact umDaemonJobInput_stays s.daemon h
  · exact ⟨rfl, rfl, rfl, rfl⟩

theorem OneJob.turn (h : OneJob s) (hinput : input ≠ .gone) : OneJob (turnStep s input false) := by
  obtain ⟨hrun, hid, hclient, hdir⟩ := turnStep_stays s hinput
  have hphase : (turnStep s input false).phase =
      if (turnStep s input false).daemon.running then .looked else .polled := rfl
  refine ⟨h.alone, ?_, ?_, ?_, ?_, ?_, ?_⟩
  · rw [hid]
    exact h.fresh
  · rw [hrun]
    exact h.idle
  · rw [hrun, hclient, hdir, hid]
    intro hrunning
    obtain ⟨hc, hd, hheld⟩ := h.job hrunning
    exact ⟨hc, hd, hheld.congr rfl rfl rfl⟩
  · rw [hphase]
    split
    · rename_i hr
      exact fun _ => hr
    · rintro (hp | hp)
      · cases hp
      · cases hp
  · rw [hphase]
    intro id stops hp
    split at hp
    · cases hp
    · cases hp
  · intro _ _ hread
    rw [hrun]
    cases hr : s.daemon.running with
    | false => rfl
    | true =>
      have hc := (h.job hr).1
      simp [turnStep, hr, hc] at hread

theorem OneJob.checkDone (h : OneJob s) (hphase : s.phase = .looked) :
    OneJob (checkDoneStep s) := by
  have hrun := h.watching (.inl hphase)
  obtain ⟨hclient, hdir, hheld⟩ := h.job hrun
  rw [checkDoneStep, hdir]
  cases hdone : ((some s.daemon.id).bind s.results).bind ResultDirectory.done with
  | none =>
    refine ⟨h.alone, h.fresh, h.idle, fun hr => ?_, fun _ => hrun, fun _ _ hp => ?_, ?_⟩
    · exact ⟨hclient, hdir, hheld.congr rfl rfl rfl⟩
    · cases hp
    · intro _ _ hread
      exact h.listening (by simp [hphase]) (by simp [hphase]) hread
  | some status =>
    rw [Option.bind_some] at hdone
    -- only a request that is done has a status in its directory
    have hfree : s.queue = [] ∧ s.guest = .looking := by
      cases hheld with
      | queued _ _ _ hnone =>
        cases hd : s.results s.daemon.id with
        | none => simp [hd] at hdone
        | some d => simp [hd, hnone d hd] at hdone
      | made _ _ _ d hd hnone => simp [hd, hnone] at hdone
      | claimed _ _ _ d hd hnone => simp [hd, hnone] at hdone
      | done _ hqueue hguest _ _ _ => exact ⟨hqueue, hguest⟩
    refine ⟨h.alone, ?_, fun _ => hfree, (fun hr => nomatch hr), ?_, fun _ _ _ => rfl,
      fun _ _ _ => rfl⟩
    · intro i hi
      have hne : i ≠ s.daemon.id := by
        rintro rfl
        exact lt_irrefl _ hi
      simp only [umDaemonEndJob, hdir]
      exact (setDirectory_of_ne hne _).trans (h.fresh i hi)
    · simp only [umDaemonEndJob, hdir]
      rintro (hp | hp)
      · cases hp
      · cases hp

theorem OneJob.checkClock (h : OneJob s) (hphase : s.phase = .undone)
    {deadlineOver claimOver graceOver alive : Bool}
    (hclaim : s.daemon.claimed = false → claimOver = false) (hgrace : graceOver = false)
    (halive : alive = true) : OneJob (checkClockStep s deadlineOver claimOver graceOver alive) := by
  have hrun := h.watching (.inr hphase)
  obtain ⟨hclient, hdir, hheld⟩ := h.job hrun
  have hclock : ∃ d : Daemon, checkClockStep s deadlineOver claimOver graceOver alive =
      { s with daemon := d, phase := .polled } ∧ d.running = true ∧ d.id = s.daemon.id ∧
        d.client = true ∧ d.directory = some s.daemon.id := by
    have hkept : ∀ d : Daemon, d.claimed = s.daemon.claimed →
        ¬ (d.claimed = false ∧ claimOver = true) := by
      rintro d hd ⟨hclaimed, hover⟩
      rw [hclaim (hd.symm.trans hclaimed)] at hover
      cases hover
    subst hgrace halive
    simp only [checkClockStep]
    split
    · rw [if_neg (hkept _ rfl), if_neg (by simp), if_neg (by simp)]
      exact ⟨_, rfl, hrun, rfl, hclient, hdir⟩
    · rw [if_neg (hkept _ rfl), if_neg (by simp), if_neg (by simp)]
      exact ⟨_, rfl, hrun, rfl, hclient, hdir⟩
  obtain ⟨d, heq, hr, hid, hc, hd⟩ := hclock
  rw [heq]
  refine ⟨h.alone, ?_, fun hidle => ?_, fun _ => ?_, fun _ => hr, fun _ _ hp => ?_, ?_⟩
  · intro i hi
    exact h.fresh i (hid ▸ hi)
  · rw [show d.running = false from hidle] at hr
    cases hr
  · exact ⟨hc, hd.trans (hid ▸ rfl), hid ▸ hheld.congr rfl rfl rfl⟩
  · cases hp
  · intro _ _ hread
    have hidle := h.listening (by simp [hphase]) (by simp [hphase]) hread
    rw [hrun] at hidle
    cases hidle

theorem OneJob.remove (h : OneJob s) {stops : Bool} (hphase : s.phase = .removing id stops)
    (empty : Bool) : OneJob (removeStep s id stops empty) := by
  have hidle := h.removing id stops hphase
  refine ⟨h.alone, ?_, h.idle, fun hr => ?_, ?_, fun _ _ _ => hidle, fun _ _ _ => hidle⟩
  · intro i hi
    simp only [removeStep]
    split
    · by_cases hne : i = id
      · rw [hne, setDirectory_self]
      · rw [setDirectory_of_ne hne]
        exact h.fresh i hi
    · exact h.fresh i hi
  · rw [show s.daemon.running = true from hr] at hidle
    cases hidle
  · intro hp
    simp only [removeStep] at hp
    split at hp
    · rcases hp with hp | hp
      · cases hp
      · cases hp
    · rcases hp with hp | hp
      · cases hp
      · cases hp

/-- The daemon that listens has no job, and nothing is outstanding. -/
theorem OneJob.calm (h : OneJob s) (hphase : s.phase = .polled) (hread : s.readable = true) :
    ¬ Outstanding s := by
  have hidle := h.listening (by simp [hphase]) (by simp [hphase]) hread
  obtain ⟨hqueue, hguest⟩ := h.idle hidle
  rintro (hr | hq | hb)
  · rw [hidle] at hr
    cases hr
  · exact hq hqueue
  · rw [hguest] at hb
    cases hb

theorem OneJob.accept (h : OneJob s) (hphase : s.phase = .polled) (hread : s.readable = true)
    (leaves : Bool) : OneJob (umDaemonAccept s true leaves) := by
  have hidle := h.listening (by simp [hphase]) (by simp [hphase]) hread
  have hcalm := h.calm hphase hread
  have hother : ∀ (p : Phase) (pending : List Waiting) (answers : List (Bool × Answer)),
      p = .stopped ∨ p = .polling →
        OneJob { s with phase := p, pending := pending, answers := answers } := by
    intro p pending answers hp
    refine ⟨h.alone, h.fresh, h.idle, fun hr => ?_, fun hw => ?_, fun _ _ hw => ?_, ?_⟩
    · rw [show s.daemon.running = true from hr] at hidle
      cases hidle
    · rcases hp with rfl | rfl
      · rcases hw with hw | hw <;> cases hw
      · rcases hw with hw | hw <;> cases hw
    · rcases hp with rfl | rfl <;> cases hw
    · exact fun _ _ _ => hidle
  have hafter : (if leaves then Phase.stopped else .polling) = .stopped ∨
      (if leaves then Phase.stopped else .polling) = .polling := by
    cases leaves
    · exact .inr rfl
    · exact .inl rfl
  rw [umDaemonAccept]
  split
  · exact hother _ _ _ hafter
  · rename_i w pending hpending
    simp only
    split
    · rename_i file timeoutMs hfile
      obtain ⟨hqueue, hguest⟩ := h.idle hidle
      refine ⟨?_, fun i hi => ?_, (fun hr => nomatch hr), fun _ => ⟨rfl, rfl, ?_⟩, fun _ => rfl,
        fun _ _ hp => ?_, fun hp hp' => ?_⟩
      · change (s.overlapped || decide (Outstanding _)) = false
        rw [h.alone]
        exact decide_eq_false hcalm
      · exact h.fresh i (by
          change s.daemon.id + 1 < i at hi
          omega)
      · refine .queued (s.started, file) ?_ (.inl hguest) fun d hd => ?_
        · change (_, _) :: s.queue.filter _ = _
          rw [hqueue]
          rfl
        · change s.results (s.daemon.id + 1) = some d at hd
          rw [h.fresh (s.daemon.id + 1) (by omega)] at hd
          cases hd
      · change (if leaves then Phase.stopped else .polling) = _ at hp
        rcases hafter with ha | ha
        · rw [ha] at hp
          cases hp
        · rw [ha] at hp
          cases hp
      · rcases hafter with ha | ha
        · exact absurd ha hp'
        · exact absurd ha hp
    · exact hother _ _ _ (.inl rfl)
    · exact hother _ _ _ hafter

theorem OneJob.step (h : OneJob s) {e : Event} (hquiet : Quiet s e) : OneJob (step s e) := by
  have hact : OneJob (act s e) := by
    cases e with
    | arrive received =>
      exact ⟨h.alone, h.fresh, h.idle, fun hr => ⟨(h.job hr).1, (h.job hr).2.1,
        (h.job hr).2.2.congr rfl rfl rfl⟩, h.watching, h.removing, h.listening⟩
    | turn input hangup =>
      obtain ⟨hinput, rfl⟩ := hquiet
      simp only [act]
      split
      · exact h.turn hinput
      · exact h
    | checkDone =>
      simp only [act]
      split
      · exact h.checkDone ‹_›
      · exact h
    | checkClock deadlineOver claimOver graceOver alive =>
      obtain ⟨hclaim, hgrace, halive⟩ := hquiet
      simp only [act]
      split
      · exact h.checkClock ‹_› hclaim hgrace halive
      · exact h
    | remove empty =>
      simp only [act]
      split
      · exact h.remove ‹_› empty
      · exact h
    | accept queued leaves =>
      obtain rfl : queued = true := hquiet
      simp only [act]
      split
      · rename_i hphase
        split
        · exact h.accept hphase ‹_› leaves
        · rename_i hread
          refine ⟨h.alone, h.fresh, h.idle, fun hr => ⟨(h.job hr).1, (h.job hr).2.1,
            (h.job hr).2.2.congr rfl rfl rfl⟩, ?_, ?_, fun _ _ hr => absurd hr hread⟩
          · cases leaves <;> simp
          · cases leaves <;> simp
      · exact h
    | guest event => exact h.guest event
  refine ⟨hact.alone, hact.fresh, hact.idle, fun hr => ?_, hact.watching, hact.removing,
    hact.listening⟩
  obtain ⟨hclient, hdir, hheld⟩ := hact.job hr
  exact ⟨hclient, hdir, hheld.congr rfl rfl rfl⟩

/-- In a quiet run no request is ever started beside another: the daemon listens only
when nothing is outstanding. -/
theorem exclusive_of_quiet {es : List Event} (h : AllSteps UmSession.step Quiet initial es) :
    ∀ s ∈ states UmSession.step initial es, s.overlapped = false ∧
      (s.phase = .polled → s.readable = true → ¬ Outstanding s) := by
  have hinitial : OneJob initial := by
    refine ⟨rfl, fun _ _ => rfl, fun _ => ⟨rfl, rfl⟩, (fun hr => nomatch hr), ?_,
      (fun _ _ hp => nomatch hp), fun _ _ _ => rfl⟩
    rintro (hp | hp)
    · cases hp
    · cases hp
  intro s hs
  have hjob := invariant_states (I := OneJob) (fun s e hquiet hjob => hjob.step hquiet)
    hinitial h s hs
  exact ⟨hjob.alone, hjob.calm⟩

/-- A command, and the work on it. -/
def served (id : ℕ) : List Event :=
  [.arrive (ascii "EXEC 8 0\n\n4\ntrue\n"), .turn .nothing false, .accept true false,
    .guest (.look id), .guest (.makeDirectory true), .guest .claim, .guest (.read true),
    .turn .ping false, .checkDone, .checkClock false false false true, .accept true false,
    .guest .run, .guest (.finish 0), .turn .nothing false, .checkDone, .remove true,
    .accept true false]

/-- Two commands are served one after the other. -/
theorem exclusive_served : (∀ s ∈ states UmSession.step initial (served 1 ++ served 2),
      s.overlapped = false ∧ (s.phase = .polled → s.readable = true → ¬ Outstanding s)) ∧
    ((served 1 ++ served 2).foldl UmSession.step initial).answers.length = 2 :=
  ⟨exclusive_of_quiet (by simp [served, Quiet]), by decide +kernel⟩

end NeoProot.UmSession
