import NeoProot.Backend.Refusal

/-!
# The numbers of jobs

A job has a number, which names its file in the queue and the directory of its result.  The
daemon counts the jobs, and a request that cannot be queued puts the counter back to zero, so
the next ones get the numbers of jobs that were there before.

## Main definitions

* `Logged` — a session with the numbers it gave and for whom files were written where.
* `Fresh` — the numbers are different, and the job's directory holds files of its own.

## Main results

* `fresh_iff` — a run is fresh exactly when nothing is queued after the counter went back.
-/

namespace NeoProot.UmSession
open Run

variable {i n : ℕ} {s : Session} {e : Event}

/-- What happened to the numbers: those given, each with the request that got it, and the
directories in which the guest wrote output or a status, each with the request it did so for. -/
structure Ledger where
  placed : List (ℕ × ℕ)
  written : List (ℕ × ℕ)

/-- A session with its ledger. -/
structure Logged where
  session : Session
  ledger : Ledger

/-- The directory in which the guest writes output or a status, and the request that it works
on. -/
def writes (s : Session) : Event → Option (ℕ × ℕ)
  | .guest e =>
    match s.guest, e with
    | .claimed id n, .read cwdOk =>
      if (guestStep s (.read cwdOk)).guest = .looking then some (id, n) else none
    | .parsed id n, .run => if (s.results id).isSome then some (id, n) else none
    | .running id n, .finish _ => some (id, n)
    | _, _ => none
  | _ => none

/-- What an event adds to the ledger. -/
def note (s : Session) (l : Ledger) (e : Event) : Ledger :=
  { placed := if s.started < (step s e).started then ((step s e).daemon.id, s.started) :: l.placed
      else l.placed
    written := (writes s e).toList ++ l.written }

namespace Logged

/-- A session that has just begun. -/
def initial : Logged := ⟨UmSession.initial, ⟨[], []⟩⟩

/-- One event, noted. -/
def step (l : Logged) (e : Event) : Logged :=
  ⟨UmSession.step l.session e, note l.session l.ledger e⟩

/-- Nothing was written into the directory `id` but for request `n`. -/
structure Own (l : Logged) (id n : ℕ) : Prop where
  written : ∀ m, (id, m) ∈ l.ledger.written → m = n
  request : ∀ d, l.session.results id = some d → ∀ r ∈ d.request, r.1 = n
  done : ∀ d, l.session.results id = some d → d.done.isSome → (id, n) ∈ l.ledger.written

/-- No two requests had the same number, and the directory of the running job is its own. -/
def Fresh (l : Logged) : Prop :=
  (l.ledger.placed.map Prod.fst).Nodup ∧
    ∀ id n, l.session.daemon.running = true → l.session.daemon.directory = some id →
      l.session.daemon.serial = some n → l.Own id n

end Logged

/-- Nothing is queued after a request that could not be, when something was queued before. -/
def NoRestart (s : Session) : Event → Prop
  | .accept queued _ =>
    s.phase = .polled → s.readable = true → queued = true →
      ∀ w ∈ s.pending.head?, IsExec w.received → s.daemon.id = 0 → s.started = 0
  | _ => True

/-! ### What is recorded -/

/-- Every number in the state is one that was given to the request it stands with. -/
structure Recorded (s : Session) (l : Ledger) : Prop where
  queue : ∀ id n file, (id, n, file) ∈ s.queue → (id, n) ∈ l.placed
  guest : ∀ id n, s.guest = .claimed id n ∨ s.guest = .parsed id n ∨ s.guest = .running id n →
    (id, n) ∈ l.placed
  request : ∀ id d n file, s.results id = some d → d.request = some (n, file) → (id, n) ∈ l.placed
  done : ∀ id d, s.results id = some d → d.done.isSome → ∃ n, (id, n) ∈ l.written
  written : ∀ p ∈ l.written, p ∈ l.placed
  job : ∀ id n, s.daemon.running = true → s.daemon.directory = some id →
    s.daemon.serial = some n → (id, n) ∈ l.placed

/-- Where the counter is. -/
structure Numbered (s : Session) (l : Ledger) : Prop where
  started : l.placed = [] ↔ s.started = 0
  first : l.placed ≠ [] → 1 ∈ l.placed.map Prod.fst
  unused : l.placed = [] → s.daemon.id = 0
  above : s.daemon.id ≠ 0 → ∀ id ∈ l.placed.map Prod.fst, id ≤ s.daemon.id

namespace Recorded

variable {s t : Session} {l : Ledger}

/-- What takes files, entries or the job away leaves all numbers recorded. -/
theorem of_less (h : Recorded s l) (hqueue : ∀ entry ∈ t.queue, entry ∈ s.queue)
    (hguest : ∀ id n, t.guest = .claimed id n ∨ t.guest = .parsed id n ∨ t.guest = .running id n →
      s.guest = .claimed id n ∨ s.guest = .parsed id n ∨ s.guest = .running id n)
    (hresults : ∀ id d, t.results id = some d → d = ⟨none, none⟩ ∨ s.results id = some d)
    (hjob : t.daemon.running = true → ∀ n, t.daemon.serial = some n →
      s.daemon.running = true ∧ t.daemon.directory = s.daemon.directory ∧
        s.daemon.serial = some n) : Recorded t l := by
  refine ⟨fun id n file hentry => h.queue id n file (hqueue _ hentry),
    fun id n hg => h.guest id n (hguest id n hg),
    fun id d n file hd hr => ?_, fun id d hd hdone => ?_, h.written,
    fun id n hrun hdir hserial => ?_⟩
  · obtain rfl | hd := hresults id d hd
    · exact absurd hr (by simp)
    · exact h.request id d n file hd hr
  · obtain rfl | hd := hresults id d hd
    · exact absurd hdone (by simp)
    · exact h.done id d hd hdone
  · obtain ⟨hrun, hdir', hserial'⟩ := hjob hrun n hserial
    rw [hdir'] at hdir
    exact h.job id n hrun hdir hserial'

/-- A status that is published is its request's. -/
theorem publishDone (h : Recorded s l) (hin : (i, n) ∈ l.placed) (status : ℕ) :
    Recorded (publishDone s i status) ⟨l.placed, (i, n) :: l.written⟩ := by
  refine ⟨fun id m file hentry => h.queue id m file hentry, fun id m hg => ?_,
    fun id d m file hd hr => ?_, fun id d hd hdone => ?_, ?_,
    fun id m hrun hdir hserial => h.job id m hrun hdir hserial⟩
  · obtain hg | hg | hg := hg
    · cases hg
    · cases hg
    · cases hg
  · by_cases hid : id = i
    · subst hid
      simp only [UmSession.publishDone, setDirectory_self] at hd
      obtain ⟨d', hd', rfl⟩ := Option.map_eq_some_iff.1 hd
      exact h.request id d' m file hd' hr
    · rw [publishDone_results hid] at hd
      exact h.request id d m file hd hr
  · by_cases hid : id = i
    · exact ⟨n, hid ▸ List.mem_cons_self⟩
    · rw [publishDone_results hid] at hd
      obtain ⟨m, hm⟩ := h.done id d hd hdone
      exact ⟨m, List.mem_cons_of_mem _ hm⟩
  · exact List.forall_mem_cons.2 ⟨hin, h.written⟩

/-- The job ends, and its directory holds at most files without content. -/
theorem endJob (h : Recorded s l) (status : ℕ) (stops : Bool) :
    Recorded (umDaemonEndJob s status stops) l := by
  refine h.of_less (fun _ hentry => hentry) (fun _ _ hg => hg) (fun id d hd => ?_)
    fun hrun => by cases hrun
  cases hdir : s.daemon.directory with
  | none =>
    simp only [umDaemonEndJob, hdir] at hd
    exact .inr hd
  | some i =>
    simp only [umDaemonEndJob, hdir] at hd
    by_cases hid : id = i
    · subst hid
      rw [setDirectory_self] at hd
      obtain ⟨_, _, rfl⟩ := Option.map_eq_some_iff.1 hd
      exact .inl rfl
    · rw [setDirectory_of_ne hid] at hd
      exact .inr hd

/-- The guest takes a request out of the queue with its number. -/
theorem claim (h : Recorded s l) {file : Bytes} {d : ResultDirectory}
    (hentry : (i, n, file) ∈ s.queue) (hd : s.results i = some d) :
    Recorded { s with
      queue := s.queue.filter fun entry => entry.1 ≠ i
      results := setDirectory s.results i (some { d with request := some (n, file) })
      guest := .claimed i n
      claims := n :: s.claims } l := by
  have hin : (i, n) ∈ l.placed := h.queue i n file hentry
  refine ⟨fun id m f hf => h.queue id m f (List.mem_of_mem_filter hf), fun id m hg => ?_,
    fun id d' m f hd' hr => ?_, fun id d' hd' hdone => ?_, h.written,
    fun id m hrun hdir hserial => h.job id m hrun hdir hserial⟩
  · obtain hg | hg | hg := hg
    · cases hg
      exact hin
    · cases hg
    · cases hg
  · by_cases hid : id = i
    · subst hid
      dsimp only at hd'
      rw [setDirectory_self] at hd'
      cases hd'
      cases hr
      exact hin
    · dsimp only at hd'
      rw [setDirectory_of_ne hid] at hd'
      exact h.request id d' m f hd' hr
  · by_cases hid : id = i
    · subst hid
      dsimp only at hd'
      rw [setDirectory_self] at hd'
      cases hd'
      exact h.done id d hd hdone
    · dsimp only at hd'
      rw [setDirectory_of_ne hid] at hd'
      exact h.done id d' hd' hdone

/-- The guest goes on with the request that it works on. -/
theorem works (h : Recorded s l) {g : Guest} {ran : List ℕ}
    (hg : g = .parsed i n ∨ g = .running i n) (hin : (i, n) ∈ l.placed) :
    Recorded { s with guest := g, ran := ran } l := by
  refine ⟨h.queue, fun id m hg' => ?_, h.request, h.done, h.written, h.job⟩
  obtain rfl | rfl := hg
  · obtain hg' | hg' | hg' := hg'
    · cases hg'
    · cases hg'
      exact hin
    · cases hg'
  · obtain hg' | hg' | hg' := hg'
    · cases hg'
    · cases hg'
    · cases hg'
      exact hin

/-- The guest writes for the request that it works on. -/
theorem writes (h : Recorded s l) (hin : (i, n) ∈ l.placed) :
    Recorded s ⟨l.placed, (i, n) :: l.written⟩ := by
  refine ⟨h.queue, h.guest, h.request, fun id d hd hdone => ?_,
    List.forall_mem_cons.2 ⟨hin, h.written⟩, h.job⟩
  obtain ⟨m, hm⟩ := h.done id d hd hdone
  exact ⟨m, List.mem_cons_of_mem _ hm⟩

/-- The guest works on nothing. -/
theorem idle (h : Recorded s l) {g : Guest} (hg : g.busy = false) :
    Recorded { s with guest := g } l := by
  refine h.of_less (fun _ hentry => hentry) (fun id n hbusy => ?_) (fun _ _ hd => .inr hd)
    fun hrun n hserial => ⟨hrun, rfl, hserial⟩
  obtain rfl | rfl | rfl := hbusy
  · cases hg
  · cases hg
  · cases hg

end Recorded

/-! ### Events -/

/-- Only taking a client gives a number or changes the daemon's count. -/
theorem act_counts (s : Session) (e : Event) (h : ∀ queued leaves, e ≠ .accept queued leaves) :
    (act s e).started = s.started ∧ (act s e).daemon.id = s.daemon.id := by
  cases e with
  | arrive received => exact ⟨rfl, rfl⟩
  | turn input hangup =>
    have hinput : (umDaemonJobInput s.daemon input hangup).id = s.daemon.id := by
      cases input with
      | signal number => grind [umDaemonJobInput]
      | _ => grind [umDaemonJobInput]
    grind [act, turnStep]
  | checkDone => grind [act, checkDoneStep, umDaemonEndJob]
  | checkClock deadlineOver claimOver graceOver alive =>
    grind [act, checkClockStep, umDaemonEndJob, refuse]
  | remove empty => grind [act, removeStep]
  | accept queued leaves => exact absurd rfl (h queued leaves)
  | guest event =>
    have hkept := guestStep_kept s event
    exact ⟨hkept.started, congrArg Daemon.id hkept.daemon⟩

theorem note_of_silent (l : Ledger) (hstarted : (act s e).started = s.started)
    (hsilent : writes s e = none) : note s l e = l := by
  have hnot : ¬ s.started < (step s e).started := by
    rw [step, markLate, hstarted]
    exact lt_irrefl _
  rw [note, if_neg hnot, hsilent]
  rfl

theorem note_of_writes (l : Ledger) (hstarted : (act s e).started = s.started)
    (hwrites : writes s e = some (i, n)) : note s l e = ⟨l.placed, (i, n) :: l.written⟩ := by
  have hnot : ¬ s.started < (step s e).started := by
    rw [step, markLate, hstarted]
    exact lt_irrefl _
  rw [note, if_neg hnot, hwrites]
  rfl

namespace Recorded

variable {s : Session} {l : Ledger}

theorem markLate (h : Recorded s l) : Recorded (markLate s) l :=
  ⟨h.queue, h.guest, h.request, h.done, h.written, h.job⟩

/-- The guest reads the request that it claimed. -/
theorem read (h : Recorded s l) (hguest : s.guest = .claimed i n) (cwdOk : Bool) :
    Recorded (guestStep s (.read cwdOk)) (note s l (.guest (.read cwdOk))) := by
  have hin : (i, n) ∈ l.placed := h.guest i n (.inl hguest)
  have hstarted : (act s (.guest (.read cwdOk))).started = s.started := (guestStep_kept s _).started
  -- a request that is no command is answered at once
  have hpublished : ∀ status, guestStep s (.read cwdOk) = UmSession.publishDone s i status →
      Recorded (guestStep s (.read cwdOk)) (note s l (.guest (.read cwdOk))) := by
    intro status heq
    rw [note_of_writes l (i := i) (n := n) hstarted]
    · rw [heq]
      exact h.publishDone hin status
    · simp only [UmSession.writes, hguest, heq]
      exact if_pos rfl
  cases hreq : (s.results i).bind ResultDirectory.request with
  | none => exact hpublished 125 (by simp only [guestStep, hguest, hreq])
  | some r =>
    obtain ⟨serial, file⟩ := r
    by_cases hrun : Runnable file
    · cases cwdOk with
      | false => exact hpublished 126 (by simp [guestStep, hguest, hreq, hrun])
      | true =>
        have heq : guestStep s (.read true) = { s with guest := .parsed i serial } := by
          simp [guestStep, hguest, hreq, hrun]
        obtain ⟨d, hd, hr⟩ := Option.bind_eq_some_iff.1 hreq
        rw [note_of_silent l hstarted]
        · rw [heq]
          exact h.works (.inl rfl) (h.request i d serial file hd hr)
        · simp only [UmSession.writes, hguest, heq]
          exact if_neg (by simp)
    · exact hpublished 125 (by simp [guestStep, hguest, hreq, hrun])

/-- Each command of the guest's loop keeps the numbers recorded. -/
theorem guestStep (h : Recorded s l) (e : GuestEvent) :
    Recorded (guestStep s e) (note s l (.guest e)) := by
  have hstarted : (act s (.guest e)).started = s.started := (guestStep_kept s e).started
  have hsame : UmSession.writes s (.guest e) = none → Recorded s (note s l (.guest e)) := by
    intro hsilent
    rw [note_of_silent l hstarted hsilent]
    exact h
  cases e with
  | look id =>
    rw [note_of_silent l hstarted (by cases hguest : s.guest <;> simp [UmSession.writes, hguest])]
    simp only [UmSession.guestStep]
    split
    · exact h.idle rfl
    · exact h
  | makeDirectory ok =>
    rw [note_of_silent l hstarted (by cases hguest : s.guest <;> simp [UmSession.writes, hguest])]
    cases hguest : s.guest with
    | chosen i =>
      simp only [UmSession.guestStep, hguest]
      split
      · refine h.of_less (fun _ hentry => hentry) (fun id n hbusy => ?_) (fun id d hd => ?_)
          fun hrun n hserial => ⟨hrun, rfl, hserial⟩
        · simp at hbusy
        · dsimp only at hd
          by_cases hid : id = i
          · subst hid
            rw [setDirectory_self] at hd
            cases hs : s.results id with
            | none =>
              rw [hs] at hd
              exact .inl (Option.some.inj hd).symm
            | some d' =>
              rw [hs] at hd
              exact .inr hd
          · rw [setDirectory_of_ne hid] at hd
            exact .inr hd
      · exact h.idle rfl
    | _ => simpa only [UmSession.guestStep, hguest] using h
  | claim =>
    rw [note_of_silent l hstarted (by cases hguest : s.guest <;> simp [UmSession.writes, hguest])]
    cases hguest : s.guest with
    | made i =>
      simp only [UmSession.guestStep, hguest]
      split
      · rename_i serial file d hfind hd
        have hi := List.find?_some hfind
        simp only [decide_eq_true_eq] at hi
        subst hi
        exact h.claim (List.mem_of_find?_eq_some hfind) hd
      · exact h.idle rfl
    | _ => simpa only [UmSession.guestStep, hguest] using h
  | read cwdOk =>
    cases hguest : s.guest with
    | claimed i n => exact h.read hguest cwdOk
    | _ => simpa only [UmSession.guestStep, hguest] using hsame (by simp [UmSession.writes, hguest])
  | run =>
    cases hguest : s.guest with
    | parsed i n =>
      have hin : (i, n) ∈ l.placed := h.guest i n (.inr (.inl hguest))
      by_cases hhere : (s.results i).isSome
      · rw [note_of_writes l (i := i) (n := n) hstarted]
        · simp only [UmSession.guestStep, hguest, if_pos hhere]
          exact (h.writes hin).works (.inr rfl) hin
        · simp only [UmSession.writes, hguest, if_pos hhere]
      · rw [note_of_silent l hstarted]
        · simp only [UmSession.guestStep, hguest, if_neg hhere]
          exact h.idle rfl
        · simp only [UmSession.writes, hguest, if_neg hhere]
    | _ => simpa only [UmSession.guestStep, hguest] using hsame (by simp [UmSession.writes, hguest])
  | finish status =>
    cases hguest : s.guest with
    | running i n =>
      rw [note_of_writes l (i := i) (n := n) hstarted (by simp only [UmSession.writes, hguest])]
      simp only [UmSession.guestStep, hguest]
      exact h.publishDone (h.guest i n (.inr (.inr hguest))) status
    | _ => simpa only [UmSession.guestStep, hguest] using hsame (by simp [UmSession.writes, hguest])

end Recorded

/-! ### Taking a client -/

/-- The client that is next gets a number. -/
def Places (s : Session) (queued : Bool) : Prop :=
  s.phase = .polled ∧ s.readable = true ∧ queued = true ∧ ∃ w ∈ s.pending.head?, IsExec w.received

/-- A client that gets no number leaves files, guest and the daemon's count, or a request that
could not be queued puts the count back. -/
structure Unplaced (s t : Session) : Prop where
  queue : t.queue = s.queue
  guest : t.guest = s.guest
  results : t.results = s.results
  started : t.started = s.started
  count : t.daemon = s.daemon ∨ t.daemon.serial = none ∧ t.daemon.id = 0

/-- A client gets the next number. -/
structure Placed (s t : Session) : Prop where
  queue : ∃ file, t.queue =
    (s.daemon.id + 1, s.started, file) :: s.queue.filter fun entry => entry.1 ≠ s.daemon.id + 1
  guest : t.guest = s.guest
  results : t.results = s.results
  started : t.started = s.started + 1
  id : t.daemon.id = s.daemon.id + 1
  directory : t.daemon.directory = some (s.daemon.id + 1)
  serial : t.daemon.serial = some s.started

/-- Taking the client that waits gives it a number exactly when it has a command that can be
queued. -/
theorem accept_cases (s : Session) (queued leaves : Bool) :
    Places s queued ∧ Placed s (act s (.accept queued leaves)) ∨
      ¬ Places s queued ∧ Unplaced s (act s (.accept queued leaves)) := by
  have hother : ∀ (p : Phase) (pending : List Waiting) (answers : List (Bool × Answer)),
      Unplaced s { s with phase := p, pending := pending, answers := answers } := fun _ _ _ =>
    ⟨rfl, rfl, rfl, rfl, .inl rfl⟩
  by_cases hlistens : s.phase = .polled ∧ s.readable = true
  · have hact : act s (.accept queued leaves) = umDaemonAccept s queued leaves := by
      simp only [act, if_pos hlistens.1, if_pos hlistens.2]
    rw [hact]
    cases hpending : s.pending with
    | nil =>
      refine .inr ⟨?_, ?_⟩
      · rintro ⟨-, -, -, w, hw, -⟩
        rw [hpending] at hw
        cases hw
      · simp only [umDaemonAccept, hpending]
        exact ⟨rfl, rfl, rfl, rfl, .inl rfl⟩
    | cons w pending =>
      by_cases hexec : IsExec w.received
      · have hwhole := hexec
        obtain ⟨file, timeoutMs, hfile⟩ := hexec
        simp only [umDaemonAccept, hpending, hfile, if_pos hwhole]
        cases queued with
        | true =>
          refine .inl ⟨⟨hlistens.1, hlistens.2, rfl, w, ?_, hwhole⟩, ?_⟩
          · rw [hpending]
            rfl
          · exact ⟨⟨file, rfl⟩, rfl, rfl, rfl, rfl, rfl, rfl⟩
        | false =>
          refine .inr ⟨fun hplaces => ?_, ⟨rfl, rfl, rfl, rfl, .inr ⟨rfl, rfl⟩⟩⟩
          cases hplaces.2.2.1
      · refine .inr ⟨?_, ?_⟩
        · rintro ⟨-, -, -, v, hv, hx⟩
          rw [hpending] at hv
          obtain rfl := Option.some.inj hv
          exact hexec hx
        · simp only [umDaemonAccept, hpending, if_neg hexec]
          split
          · rename_i file timeoutMs hfile
            exact absurd ⟨file, timeoutMs, hfile⟩ hexec
          · exact hother _ pending s.answers
          · exact hother _ pending s.answers
  · refine .inr ⟨fun hplaces => hlistens ⟨hplaces.1, hplaces.2.1⟩, ?_⟩
    simp only [act]
    split
    · rw [if_neg fun hr => hlistens ⟨‹_›, hr⟩]
      exact hother _ s.pending s.answers
    · exact hother s.phase s.pending s.answers

/-- The ledger gets the new number. -/
theorem note_of_placed {queued leaves : Bool} (l : Ledger)
    (h : Placed s (act s (.accept queued leaves))) :
    note s l (.accept queued leaves) =
      ⟨(s.daemon.id + 1, s.started) :: l.placed, l.written⟩ := by
  have hstarted : s.started < (step s (.accept queued leaves)).started := by
    rw [step, UmSession.markLate, h.started]
    exact Nat.lt_succ_self _
  rw [note, if_pos hstarted]
  simp only [writes, step, UmSession.markLate, h.id]
  rfl

namespace Recorded

variable {s t : Session} {l : Ledger}

theorem unplaced (h : Recorded s l) (ht : Unplaced s t) : Recorded t l := by
  refine h.of_less (fun entry hentry => ht.queue ▸ hentry) (fun id n hg => ht.guest ▸ hg)
    (fun id d hd => .inr (ht.results ▸ hd)) fun hrun n hserial => ?_
  obtain hd | ⟨hnone, -⟩ := ht.count
  · rw [hd] at hrun hserial
    exact ⟨hrun, by rw [hd], hserial⟩
  · rw [hnone] at hserial
    cases hserial

theorem placed (h : Recorded s l) (ht : Placed s t) :
    Recorded t ⟨(s.daemon.id + 1, s.started) :: l.placed, l.written⟩ := by
  obtain ⟨file, hqueue⟩ := ht.queue
  refine ⟨fun id n f hentry => ?_, fun id n hg => ?_, fun id d n f hd hr => ?_,
    fun id d hd hdone => h.done id d (ht.results ▸ hd) hdone,
    fun p hp => List.mem_cons_of_mem _ (h.written p hp), fun id n _ hdir hserial => ?_⟩
  · rw [hqueue] at hentry
    obtain heq | hentry := List.mem_cons.1 hentry
    · cases heq
      exact List.mem_cons_self
    · exact List.mem_cons_of_mem _ (h.queue id n f (List.mem_of_mem_filter hentry))
  · rw [ht.guest] at hg
    exact List.mem_cons_of_mem _ (h.guest id n hg)
  · rw [ht.results] at hd
    exact List.mem_cons_of_mem _ (h.request id d n f hd hr)
  · rw [ht.directory] at hdir
    rw [ht.serial] at hserial
    cases hdir
    cases hserial
    exact List.mem_cons_self

theorem clock (h : Recorded s l) (deadlineOver claimOver graceOver alive : Bool) :
    Recorded (checkClockStep s deadlineOver claimOver graceOver alive) l := by
  have hchanged : ∀ (d : Daemon) (p : Phase) (refused : List (ℕ × Bool)),
      d.running = s.daemon.running → d.directory = s.daemon.directory →
      d.serial = s.daemon.serial →
      Recorded { s with daemon := d, phase := p, refused := refused } l := by
    intro d p refused hrun hdir hserial
    refine h.of_less (fun _ hentry => hentry) (fun _ _ hg => hg) (fun _ _ hd => .inr hd) ?_
    exact fun hr n hn => ⟨hrun ▸ hr, hdir, hserial ▸ hn⟩
  have hclock : ∃ d : Daemon, (d.running = s.daemon.running ∧ d.directory = s.daemon.directory ∧
      d.serial = s.daemon.serial) ∧ d = (if s.daemon.killSent = false ∧ s.daemon.deadline ∧
        deadlineOver then { s.daemon with timedOut := true, killSent := true } else s.daemon) := by
    refine ⟨_, ?_, rfl⟩
    split
    · exact ⟨rfl, rfl, rfl⟩
    · exact ⟨rfl, rfl, rfl⟩
  obtain ⟨d, ⟨hrun, hdir, hserial⟩, heq⟩ := hclock
  simp only [checkClockStep, ← heq]
  split
  · rw [refuse]
    split
    · exact (hchanged d s.phase s.refused hrun hdir hserial).endJob 125 false
    · exact (hchanged d s.phase _ hrun hdir hserial).endJob 125 false
  · split
    · exact (hchanged d s.phase s.refused hrun hdir hserial).endJob 125 false
    · split
      · exact (hchanged d s.phase s.refused hrun hdir hserial).endJob 125 true
      · exact hchanged d .polled s.refused hrun hdir hserial

theorem turn (h : Recorded s l) (input : Input) (hangup : Bool) :
    Recorded (turnStep s input hangup) l := by
  have hinput : (umDaemonJobInput s.daemon input hangup).running = s.daemon.running ∧
      (umDaemonJobInput s.daemon input hangup).directory = s.daemon.directory ∧
      (umDaemonJobInput s.daemon input hangup).serial = s.daemon.serial := by
    cases input with
    | signal number => grind [umDaemonJobInput]
    | _ => grind [umDaemonJobInput]
  refine h.of_less (fun _ hentry => hentry) (fun _ _ hg => hg) (fun _ _ hd => .inr hd) ?_
  simp only [turnStep]
  split
  · exact fun hrun n hn => ⟨hinput.1 ▸ hrun, hinput.2.1, hinput.2.2 ▸ hn⟩
  · exact fun hrun n hn => ⟨hrun, rfl, hn⟩

theorem remove (h : Recorded s l) (id : ℕ) (stops empty : Bool) :
    Recorded (removeStep s id stops empty) l := by
  refine h.of_less (fun _ hentry => hentry) (fun _ _ hg => hg) (fun i d hd => ?_)
    fun hrun n hn => ⟨hrun, rfl, hn⟩
  simp only [removeStep] at hd
  split at hd
  · by_cases hi : i = id
    · subst hi
      rw [setDirectory_self] at hd
      cases hd
    · rw [setDirectory_of_ne hi] at hd
      exact .inr hd
  · exact .inr hd

/-- Every event keeps the numbers recorded. -/
theorem step (h : Recorded s l) (e : Event) : Recorded (step s e) (note s l e) := by
  rw [UmSession.step]
  apply Recorded.markLate
  cases e with
  | guest e => exact h.guestStep e
  | accept queued leaves =>
    obtain ⟨-, hplaced⟩ | ⟨-, hunplaced⟩ := accept_cases s queued leaves
    · rw [note_of_placed l hplaced]
      exact h.placed hplaced
    · rw [note_of_silent l hunplaced.started rfl]
      exact h.unplaced hunplaced
  | arrive received =>
    rw [note_of_silent l rfl rfl]
    exact ⟨h.queue, h.guest, h.request, h.done, h.written, h.job⟩
  | turn input hangup =>
    rw [note_of_silent l (act_counts s _ (by simp)).1 rfl]
    simp only [act]
    split
    · exact h.turn input hangup
    · exact h
  | checkDone =>
    rw [note_of_silent l (act_counts s _ (by simp)).1 rfl]
    simp only [act]
    split
    · rw [checkDoneStep]
      split
      · exact h.endJob _ false
      · exact ⟨h.queue, h.guest, h.request, h.done, h.written, h.job⟩
    · exact h
  | checkClock deadlineOver claimOver graceOver alive =>
    rw [note_of_silent l (act_counts s _ (by simp)).1 rfl]
    simp only [act]
    split
    · exact h.clock deadlineOver claimOver graceOver alive
    · exact h
  | remove empty =>
    rw [note_of_silent l (act_counts s _ (by simp)).1 rfl]
    simp only [act]
    split
    · exact h.remove _ _ empty
    · exact h

end Recorded

/-! ### The count -/

namespace Numbered

variable {s t : Session} {l : Ledger}

theorem unplaced (h : Numbered s l) (hstarted : t.started = s.started)
    (hcount : t.daemon.id = s.daemon.id ∨ t.daemon.id = 0) : Numbered t l := by
  refine ⟨h.started.trans (by rw [hstarted]), h.first, fun hnil => ?_, fun hne => ?_⟩
  · obtain hid | hid := hcount
    · exact hid.trans (h.unused hnil)
    · exact hid
  · obtain hid | hid := hcount
    · rw [hid] at hne ⊢
      exact h.above hne
    · exact absurd hid hne

/-- A number that is not a restart is above those before it. -/
theorem placed (h : Numbered s l) (hrestart : s.daemon.id = 0 → s.started = 0)
    (ht : Placed s t) : Numbered t ⟨(s.daemon.id + 1, s.started) :: l.placed, l.written⟩ := by
  refine ⟨iff_of_false (List.cons_ne_nil _ _) ?_, fun _ => ?_, fun hnil => ?_, fun _ => ?_⟩
  · rw [ht.started]
    exact Nat.succ_ne_zero _
  · by_cases hnil : l.placed = []
    · rw [List.map_cons, h.unused hnil]
      exact List.mem_cons_self
    · exact List.mem_cons_of_mem _ (h.first hnil)
  · exact absurd hnil (List.cons_ne_nil _ _)
  · intro id hid
    rw [ht.id]
    obtain rfl | hid := List.mem_cons.1 hid
    · exact le_rfl
    · by_cases hzero : s.daemon.id = 0
      · rw [h.started.2 (hrestart hzero)] at hid
        cases hid
      · exact (h.above hzero id hid).trans (Nat.le_succ _)

end Numbered

theorem note_placed (l : Ledger) (h : (act s e).started = s.started) :
    (note s l e).placed = l.placed := by
  have hnot : ¬ s.started < (step s e).started := by
    rw [step, markLate, h]
    exact lt_irrefl _
  exact if_neg hnot

/-- The count stays above the numbers given while nothing is queued after it went back. -/
theorem Numbered.step {l : Ledger} (h : Numbered s l) (hrestart : NoRestart s e) :
    Numbered (step s e) (note s l e) := by
  by_cases haccept : ∃ queued leaves, e = .accept queued leaves
  · obtain ⟨queued, leaves, rfl⟩ := haccept
    obtain ⟨⟨hphase, hread, hqueued, w, hw, hexec⟩, ht⟩ | ⟨-, ht⟩ := accept_cases s queued leaves
    · rw [note_of_placed l ht]
      have hnumbered := h.placed (hrestart hphase hread hqueued w hw hexec) ht
      exact ⟨hnumbered.started, hnumbered.first, hnumbered.unused, hnumbered.above⟩
    · rw [note_of_silent l ht.started rfl]
      have hcount : (act s (.accept queued leaves)).daemon.id = s.daemon.id ∨
          (act s (.accept queued leaves)).daemon.id = 0 := by
        obtain hd | ⟨-, hzero⟩ := ht.count
        · exact .inl (by rw [hd])
        · exact .inr hzero
      exact h.unplaced ht.started hcount
  · have hnot : ∀ queued leaves, e ≠ .accept queued leaves := fun queued leaves heq =>
      haccept ⟨queued, leaves, heq⟩
    have hplaced := note_placed l (act_counts s e hnot).1
    have hnumbered : Numbered (UmSession.step s e) l :=
      h.unplaced (act_counts s e hnot).1 (.inl (act_counts s e hnot).2)
    exact ⟨hplaced ▸ hnumbered.started, hplaced ▸ hnumbered.first, hplaced ▸ hnumbered.unused,
      hplaced ▸ hnumbered.above⟩

/-! ### Runs -/

/-- The invariant of a run. -/
structure Kept (l : Logged) : Prop where
  recorded : Recorded l.session l.ledger
  numbered : Numbered l.session l.ledger

/-- Where no number was given twice, a job finds only files of its own. -/
theorem Recorded.fresh {l : Logged} (h : Recorded l.session l.ledger)
    (hnodup : (l.ledger.placed.map Prod.fst).Nodup) : l.Fresh := by
  refine ⟨hnodup, fun id n hrun hdir hserial => ?_⟩
  have hin := h.job id n hrun hdir hserial
  -- whoever wrote a file of the directory had the job's number
  have hsame : ∀ m, (id, m) ∈ l.ledger.placed → m = n := by
    intro m hm
    have heq := List.inj_on_of_nodup_map hnodup hm hin rfl
    exact (Prod.ext_iff.1 heq).2
  refine ⟨fun m hm => hsame m (h.written _ hm), ?_, ?_⟩
  · rintro d hd ⟨m, file⟩ hr
    exact hsame m (h.request id d m file hd hr)
  · intro d hd hdone
    obtain ⟨m, hm⟩ := h.done id d hd hdone
    rw [hsame m (h.written _ hm)] at hm
    exact hm

/-- The numbers stay different exactly when a step is no restart. -/
theorem nodup_step {l : Ledger} (h : Numbered s l) (hnodup : (l.placed.map Prod.fst).Nodup)
    (e : Event) : ((note s l e).placed.map Prod.fst).Nodup ↔ NoRestart s e := by
  by_cases haccept : ∃ queued leaves, e = .accept queued leaves
  · obtain ⟨queued, leaves, rfl⟩ := haccept
    obtain ⟨⟨hphase, hread, hqueued, w, hw, hexec⟩, ht⟩ | ⟨hnot, ht⟩ := accept_cases s queued leaves
    · rw [note_of_placed l ht, List.map_cons, List.nodup_cons]
      constructor
      · rintro ⟨hnew, -⟩ _ _ _ _ _ _ hzero
        by_contra hstarted
        refine hnew ?_
        rw [hzero]
        exact h.first fun hnil => hstarted (h.started.1 hnil)
      · intro hrestart
        refine ⟨fun hin => ?_, hnodup⟩
        by_cases hzero : s.daemon.id = 0
        · rw [h.started.2 (hrestart hphase hread hqueued w hw hexec hzero)] at hin
          cases hin
        · exact Nat.not_succ_le_self _ (h.above hzero _ hin)
    · rw [note_of_silent l ht.started rfl]
      exact iff_of_true hnodup fun hphase hread hqueued w hw hexec =>
        absurd ⟨hphase, hread, hqueued, w, hw, hexec⟩ hnot
  · rw [note_placed l (act_counts s e fun queued leaves heq => haccept ⟨queued, leaves, heq⟩).1]
    refine iff_of_true hnodup ?_
    cases e with
    | accept queued leaves => exact absurd ⟨queued, leaves, rfl⟩ haccept
    | _ => trivial

/-- In a run no two requests have one number, and a job's directory holds nothing of another,
if and only if no request is queued after the count went back to zero. -/
theorem fresh_iff (es : List Event) :
    (∀ l ∈ states Logged.step Logged.initial es, l.Fresh) ↔
      AllSteps Logged.step (fun l e => NoRestart l.session e) Logged.initial es := by
  have hrecorded : Recorded initial Logged.initial.ledger :=
    ⟨(fun _ _ _ h => nomatch h), (fun _ _ h => by simp [initial] at h),
      (fun _ _ _ _ h => nomatch h),
      (fun _ _ h => nomatch h), (fun _ h => nomatch h), (fun _ _ h => nomatch h)⟩
  apply states_iff_allSteps_of_kept (I := Kept)
  · intro l e h _ hrestart
    exact ⟨h.recorded.step e, h.numbered.step hrestart⟩
  · intro l e h hfresh
    rw [← nodup_step h.numbered hfresh.1 e]
    exact ⟨fun hnext => hnext.1, fun hnodup => (h.recorded.step e).fresh hnodup⟩
  · exact ⟨hrecorded, ⟨iff_of_true rfl rfl, fun h => absurd rfl h, fun _ => rfl,
      fun h => absurd rfl h⟩⟩
  · exact hrecorded.fresh List.nodup_nil

/-- A client is served, the request of the next cannot be written, and that of a third can. -/
def queueFails : List Event :=
  let command := ascii "EXEC 8 0\n\n4\ntrue\n"
  [.arrive command, .turn .nothing false, .accept true false,
    .guest (.look 1), .guest (.makeDirectory true), .guest .claim, .guest (.read true),
    .guest .run, .guest (.finish 0), .turn .nothing false, .checkDone, .remove true,
    .accept true false, .arrive command, .turn .nothing false, .accept false false,
    .arrive command, .turn .nothing false, .accept true false]

/-- The third request has the number of the first. -/
theorem queue_failure_restarts :
    ¬ ∀ (es : List Event), ∀ l ∈ states Logged.step Logged.initial es, l.Fresh := by
  intro h
  have hlast := (h queueFails _ (foldl_mem_states Logged.step Logged.initial queueFails)).1
  revert hlast
  decide +kernel

end NeoProot.UmSession
