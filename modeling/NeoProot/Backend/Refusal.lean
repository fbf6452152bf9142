import NeoProot.Backend.Exclusion

/-!
# Refused requests

The daemon gives a request up when no directory for it appeared in time, and tells its
client that it did not run.  It leaves the file of the queue where it is, so a guest
that comes late claims the request and runs it.

## Main definitions

* `RefusedRight` — no refused request was claimed when it was refused, or has run.
* `Sound` — where the requests can be, and that the refused ones cannot run.

## Main results

* `refused_never_runs_iff` — the refusals of a run are right, whatever the guest does
  next, exactly when no request that can still run is refused.
-/

namespace NeoProot.UmSession
open Run

variable {s : Session} {d : ResultDirectory} {j m n : ℕ}

/-- What was refused as unclaimed was not claimed, and has not run. -/
def RefusedRight (s : Session) : Prop := ∀ r ∈ s.refused, r.2 = false ∧ r.1 ∉ s.ran

instance (s : Session) : Decidable (RefusedRight s) :=
  inferInstanceAs (Decidable (∀ r ∈ s.refused, _))

/-- When the time to claim the job's request is over, the guest has not claimed it since
the daemon looked, and what is in the queue is no command. -/
def NoneRefused (s : Session) : Event → Prop
  | .checkClock _ claimOver _ _ =>
    s.phase = .undone → s.daemon.claimed = false → claimOver = true →
      ∀ n ∈ s.daemon.serial, n ∉ s.claims ∧
        ∀ i file, (i, n, file) ∈ s.queue → ¬ Runnable file
  | _ => True

/-- Nothing is left of a request that could run. -/
structure Dead (s : Session) (n : ℕ) : Prop where
  queue : ∀ i file, (i, n, file) ∈ s.queue → ¬ Runnable file
  results : ∀ i d file, s.results i = some d → d.request = some (n, file) → ¬ Runnable file
  guest : ∀ i, s.guest ≠ .parsed i n

/-- Where requests can be: what left the queue was claimed, the job's request is in the
queue if it was not, and the refused ones are dead. -/
structure Sound (s : Session) : Prop where
  nodup : (s.queue.map Prod.fst).Nodup
  request : ∀ i d n file, s.results i = some d → d.request = some (n, file) → n ∈ s.claims
  parsed : ∀ i n, s.guest = .parsed i n → n ∈ s.claims
  ran : ∀ n ∈ s.ran, n ∈ s.claims
  job : ∀ n ∈ s.daemon.serial, n ∈ s.claims ∨ ∃ i file, (i, n, file) ∈ s.queue
  serial : ∀ n ∈ s.daemon.serial, n < s.started
  refused : ∀ r ∈ s.refused, r.1 < s.started ∧ r.2 = false ∧ r.1 ∉ s.ran ∧ Dead s r.1

theorem Sound.right (h : Sound s) : RefusedRight s :=
  fun r hr => ⟨(h.refused r hr).2.1, (h.refused r hr).2.2.1⟩

/-- A step that only takes requests out of directories keeps a session sound. -/
theorem Sound.of_less {t : Session} (h : Sound s)
    (hsame : t.queue = s.queue ∧ t.claims = s.claims ∧ t.ran = s.ran ∧ t.refused = s.refused ∧
      t.started = s.started) (hresults : ∀ i d r, t.results i = some d → d.request = some r →
      ∃ d', s.results i = some d' ∧ d'.request = some r)
    (hguest : ∀ i n, t.guest = .parsed i n → s.guest = .parsed i n)
    (hserial : t.daemon.serial = s.daemon.serial ∨ t.daemon.serial = none) : Sound t := by
  obtain ⟨hqueue, hclaims, hran, hrefused, hstarted⟩ := hsame
  have hjob : ∀ n ∈ t.daemon.serial, n ∈ s.daemon.serial := by
    intro n hn
    rcases hserial with hs | hs
    · rwa [hs] at hn
    · rw [hs] at hn
      cases hn
  refine ⟨hqueue ▸ h.nodup, ?_, ?_, ?_, ?_, ?_, ?_⟩
  · intro i d n file hd hr
    obtain ⟨d', hd', hr'⟩ := hresults i d (n, file) hd hr
    rw [hclaims]
    exact h.request i d' n file hd' hr'
  · intro i n hp
    rw [hclaims]
    exact h.parsed i n (hguest i n hp)
  · rw [hran, hclaims]
    exact h.ran
  · rw [hclaims, hqueue]
    exact fun n hn => h.job n (hjob n hn)
  · rw [hstarted]
    exact fun n hn => h.serial n (hjob n hn)
  · rw [hrefused, hstarted, hran]
    intro r hr
    obtain ⟨hlt, hnot, hnrun, hdead⟩ := h.refused r hr
    refine ⟨hlt, hnot, hnrun, ?_, ?_, ?_⟩
    · rw [hqueue]
      exact hdead.queue
    · intro i d file hd hreq
      obtain ⟨d', hd', hreq'⟩ := hresults i d (r.1, file) hd hreq
      exact hdead.results i d' file hd' hreq'
    · intro i hp
      exact hdead.guest i (hguest i r.1 hp)

/-- Without its request, a directory holds none. -/
theorem request_of_setDirectory {results : ℕ → Option ResultDirectory} {id i : ℕ}
    {new : Option ResultDirectory} {r : ℕ × Bytes}
    (hnew : ∀ d', new = some d' → d'.request = some r → ∃ d'', results id = some d'' ∧ d''.request =
      some r) (hd : setDirectory results id new i = some d) (hr : d.request = some r) :
    ∃ d', results i = some d' ∧ d'.request = some r := by
  by_cases hi : i = id
  · subst hi
    rw [setDirectory_self] at hd
    exact hnew d hd hr
  · rw [setDirectory_of_ne hi] at hd
    exact ⟨d, hd, hr⟩

/-! ### The guest keeps a session sound -/

theorem Sound.publishDone (h : Sound s) (id status : ℕ) : Sound (publishDone s id status) := by
  refine h.of_less ⟨rfl, rfl, rfl, rfl, rfl⟩ ?_ (fun _ _ hp => nomatch hp) (.inl rfl)
  intro i d r hd hr
  apply request_of_setDirectory ?_ hd hr
  intro d' hd' hr'
  obtain ⟨d'', hd'', rfl⟩ := Option.map_eq_some_iff.1 hd'
  exact ⟨d'', hd'', hr'⟩

theorem Sound.look (h : Sound s) (id : ℕ) : Sound { s with guest := .chosen id } :=
  h.of_less ⟨rfl, rfl, rfl, rfl, rfl⟩ (fun _ d _ hd hr => ⟨d, hd, hr⟩)
    (fun _ _ hp => nomatch hp) (.inl rfl)

theorem Sound.looking (h : Sound s) : Sound { s with guest := .looking } :=
  h.of_less ⟨rfl, rfl, rfl, rfl, rfl⟩ (fun _ d _ hd hr => ⟨d, hd, hr⟩)
    (fun _ _ hp => nomatch hp) (.inl rfl)

theorem Sound.made (h : Sound s) (id : ℕ) :
    Sound { s with
      results := setDirectory s.results id (some ((s.results id).getD ⟨none, none⟩))
      guest := .made id } := by
  refine h.of_less ⟨rfl, rfl, rfl, rfl, rfl⟩ ?_ (fun _ _ hp => nomatch hp) (.inl rfl)
  intro i d r hd hr
  apply request_of_setDirectory ?_ hd hr
  intro d' hd' hr'
  cases hs : s.results id with
  | none =>
    rw [hs] at hd'
    cases hd'
    cases hr'
  | some d'' =>
    rw [hs] at hd'
    cases hd'
    exact ⟨d'', rfl, hr'⟩

/-- A claimed request goes from the queue to its directory. -/
theorem Sound.claim (h : Sound s) {id : ℕ} {file : Bytes} (hentry : (id, n, file) ∈ s.queue) :
    Sound { s with
      queue := s.queue.filter fun entry => entry.1 ≠ id
      results := setDirectory s.results id (some { d with request := some (n, file) })
      guest := .claimed id n
      claims := n :: s.claims } := by
  have hsub : ∀ entry ∈ s.queue.filter (fun entry => entry.1 ≠ id), entry ∈ s.queue :=
    fun entry hmem => (List.mem_filter.1 hmem).1
  have hrequest : ∀ i d' m f,
      setDirectory s.results id (some { d with request := some (n, file) }) i = some d' →
        d'.request = some (m, f) →
          (m = n ∧ f = file) ∨ ∃ d'', s.results i = some d'' ∧ d''.request = some (m, f) := by
    intro i d' m f hd' hr
    by_cases hi : i = id
    · rw [hi, setDirectory_self] at hd'
      cases hd'
      cases hr
      exact .inl ⟨rfl, rfl⟩
    · rw [setDirectory_of_ne hi] at hd'
      exact .inr ⟨d', hd', hr⟩
  refine ⟨?_, ?_, (fun _ _ hp => nomatch hp), ?_, ?_, h.serial, ?_⟩
  · exact (List.filter_sublist.map Prod.fst).nodup h.nodup
  · intro i d' m f hd' hr
    rcases hrequest i d' m f hd' hr with ⟨rfl, -⟩ | ⟨d'', hd'', hr''⟩
    · exact List.mem_cons_self
    · exact List.mem_cons_of_mem n (h.request i d'' m f hd'' hr'')
  · intro m hm
    exact List.mem_cons_of_mem n (h.ran m hm)
  · intro m hm
    rcases h.job m hm with hc | ⟨i, f, hmem⟩
    · exact .inl (List.mem_cons_of_mem n hc)
    · by_cases hi : i = id
      · -- the queue has one file of a name, so this is the claimed one
        have hsame := List.inj_on_of_nodup_map h.nodup hmem hentry hi
        cases hsame
        exact .inl List.mem_cons_self
      · exact .inr ⟨i, f, List.mem_filter.2 ⟨hmem, by simpa using hi⟩⟩
  · intro r hr
    obtain ⟨hlt, hnot, hnrun, hdead⟩ := h.refused r hr
    refine ⟨hlt, hnot, hnrun, ?_, ?_, (fun _ hp => nomatch hp)⟩
    · exact fun i f hmem => hdead.queue i f (hsub _ hmem)
    · intro i d' f hd' hreq
      rcases hrequest i d' r.1 f hd' hreq with ⟨hrn, rfl⟩ | ⟨d'', hd'', hr''⟩
      · exact hdead.queue id f (hrn ▸ hentry)
      · exact hdead.results i d'' f hd'' hr''

theorem Sound.guestStep (h : Sound s) (e : GuestEvent) : Sound (guestStep s e) := by
  cases e with
  | look id =>
    simp only [UmSession.guestStep]
    split
    · exact h.look id
    · exact h
  | makeDirectory ok =>
    simp only [UmSession.guestStep]
    split
    · split
      · exact h.made _
      · exact h.looking
    · exact h
  | claim =>
    simp only [UmSession.guestStep]
    split
    · rename_i id hguest
      split
      · rename_i i n file d hfind _
        have hid : i = id := by simpa using List.find?_some hfind
        exact h.claim (hid ▸ List.mem_of_find?_eq_some hfind)
      · exact h.looking
    · exact h
  | read cwdOk =>
    simp only [UmSession.guestStep]
    split
    · rename_i id _ _
      split
      · rename_i serial file hrequest
        split
        · exact h.publishDone id 125
        · rename_i hrun
          split
          · exact h.publishDone id 126
          · obtain ⟨d, hd, hreq⟩ := Option.bind_eq_some_iff.1 hrequest
            have hclaimed := h.request id d serial file hd hreq
            refine ⟨h.nodup, h.request, ?_, h.ran, h.job, h.serial, ?_⟩
            · intro i n hp
              cases hp
              exact hclaimed
            · intro r hr
              obtain ⟨hlt, hnot, hnrun, hdead⟩ := h.refused r hr
              refine ⟨hlt, hnot, hnrun, hdead.queue, hdead.results, ?_⟩
              -- what the guest reads is a command, and the refused ones are none
              intro i hp
              cases hp
              exact hdead.results id d file hd hreq (not_not.1 hrun)
      · exact h.publishDone id 125
    · exact h
  | run =>
    simp only [UmSession.guestStep]
    split
    · rename_i id n hguest
      split
      · refine ⟨h.nodup, h.request, (fun _ _ hp => by cases hp), ?_, h.job, h.serial, ?_⟩
        · intro m hm
          rcases List.mem_cons.1 hm with rfl | hm
          · exact h.parsed id m hguest
          · exact h.ran m hm
        · intro r hr
          obtain ⟨hlt, hnot, hnrun, hdead⟩ := h.refused r hr
          refine ⟨hlt, hnot, ?_, hdead.queue, hdead.results, (fun _ hp => by cases hp)⟩
          rw [List.mem_cons, not_or]
          refine ⟨?_, hnrun⟩
          rintro rfl
          exact hdead.guest id hguest
      · exact h.looking
    · exact h
  | finish status =>
    simp only [UmSession.guestStep]
    split
    · exact h.publishDone _ status
    · exact h

/-- Whatever the guest does next, a sound session stays sound. -/
theorem Sound.guestRun (h : Sound s) (gs : List GuestEvent) :
    Sound (gs.foldl UmSession.guestStep s) := by
  induction gs generalizing s with
  | nil => exact h
  | cons g gs ih => exact ih (h.guestStep g)

/-! ### The daemon keeps a session sound -/

/-- Ending a job takes requests out of its directory. -/
theorem Sound.endJob (h : Sound s) (status : ℕ) (stops : Bool) :
    Sound (umDaemonEndJob s status stops) := by
  refine h.of_less ⟨rfl, rfl, rfl, rfl, rfl⟩ ?_ (fun _ _ hp => hp) (.inr rfl)
  intro i d r hd hr
  cases hdir : s.daemon.directory with
  | none =>
    simp only [umDaemonEndJob, hdir] at hd
    exact ⟨d, hd, hr⟩
  | some id =>
    simp only [umDaemonEndJob, hdir] at hd
    apply request_of_setDirectory ?_ hd hr
    intro d' hd' hr'
    obtain ⟨_, _, rfl⟩ := Option.map_eq_some_iff.1 hd'
    cases hr'

/-- Refusing the job's request is sound if it is dead. -/
theorem Sound.refuse (h : Sound s) (hdead : ∀ n ∈ s.daemon.serial, n ∉ s.claims ∧
      ∀ i file, (i, n, file) ∈ s.queue → ¬ Runnable file) : Sound (refuse s) := by
  rw [UmSession.refuse]
  split
  · exact h
  · rename_i n hn
    obtain ⟨hclaims, hqueue⟩ := hdead n hn
    refine ⟨h.nodup, h.request, h.parsed, h.ran, h.job, h.serial, ?_⟩
    intro r hr
    rcases List.mem_cons.1 hr with rfl | hr
    · refine ⟨h.serial n hn, by simpa using hclaims, fun hran => hclaims (h.ran n hran), hqueue,
        fun i d file hd hreq => absurd (h.request i d n file hd hreq) hclaims,
        fun i hp => hclaims (h.parsed i n hp)⟩
    · obtain ⟨hlt, hnot, hnrun, hold⟩ := h.refused r hr
      exact ⟨hlt, hnot, hnrun, hold.queue, hold.results, hold.guest⟩

/-- Starting a job is sound: its request has a number of its own. -/
theorem Sound.startJob (h : Sound s) (file : Bytes) (timeoutMs : ℕ) (queued : Bool) :
    Sound (umDaemonStartJob s file timeoutMs queued) := by
  have hsub : ∀ entry ∈ s.queue.filter (fun entry => entry.1 ≠ s.daemon.id + 1), entry ∈ s.queue :=
    fun entry hmem => (List.mem_filter.1 hmem).1
  simp only [umDaemonStartJob]
  split
  · refine ⟨?_, h.request, h.parsed, h.ran, ?_, ?_, ?_⟩
    · rw [List.map_cons, List.nodup_cons]
      refine ⟨?_, (List.filter_sublist.map Prod.fst).nodup h.nodup⟩
      simp
    · intro n hn
      cases hn
      exact .inr ⟨_, _, List.mem_cons_self⟩
    · intro n hn
      cases hn
      exact Nat.lt_succ_self _
    · intro r hr
      obtain ⟨hlt, hnot, hnrun, hdead⟩ := h.refused r hr
      refine ⟨Nat.lt_succ_of_lt hlt, hnot, hnrun, ?_, hdead.results, hdead.guest⟩
      intro i f hmem
      rcases List.mem_cons.1 hmem with heq | hmem
      · rw [Prod.mk.injEq, Prod.mk.injEq] at heq
        omega
      · exact hdead.queue i f (hsub _ hmem)
  · exact h.of_less ⟨rfl, rfl, rfl, rfl, rfl⟩ (fun _ d _ hd hr => ⟨d, hd, hr⟩)
      (fun _ _ hp => hp) (.inr rfl)

theorem Sound.markLate (h : Sound s) : Sound (markLate s) :=
  h.of_less ⟨rfl, rfl, rfl, rfl, rfl⟩ (fun _ d _ hd hr => ⟨d, hd, hr⟩) (fun _ _ hp => hp) (.inl rfl)

theorem umDaemonJobInput_serial (d : Daemon) (input : Input) (hangup : Bool) :
    (umDaemonJobInput d input hangup).serial = d.serial := by
  cases input <;> cases hangup <;> grind [umDaemonJobInput]

/-- Looking at the clocks is sound if what is refused is dead. -/
theorem Sound.checkClock (h : Sound s) {deadlineOver claimOver graceOver alive : Bool}
    (hdead : s.daemon.claimed = false → claimOver = true → ∀ n ∈ s.daemon.serial, n ∉ s.claims ∧
      ∀ i file, (i, n, file) ∈ s.queue → ¬ Runnable file) :
    Sound (checkClockStep s deadlineOver claimOver graceOver alive) := by
  have hkept : ∀ d : Daemon, d.serial = s.daemon.serial → d.claimed = s.daemon.claimed →
      Sound (if d.claimed = false ∧ claimOver then
          umDaemonEndJob (UmSession.refuse { s with daemon := d }) 125 false
        else if d.killSent ∧ d.deadline ∧ graceOver then umDaemonEndJob { s with daemon := d } 125 false
        else if ¬ alive then umDaemonEndJob { s with daemon := d } 125 true
        else { s with daemon := d, phase := .polled }) := by
    intro d hserial hclaimed
    have hd : Sound { s with daemon := d } :=
      h.of_less ⟨rfl, rfl, rfl, rfl, rfl⟩ (fun _ d _ hd hr => ⟨d, hd, hr⟩) (fun _ _ hp => hp)
        (.inl hserial)
    split
    · rename_i hover
      refine (hd.refuse ?_).endJob 125 false
      intro n hn
      exact hdead (hclaimed.symm.trans hover.1) hover.2 n (hserial ▸ hn)
    · split
      · exact hd.endJob 125 false
      · split
        · exact hd.endJob 125 true
        · exact h.of_less ⟨rfl, rfl, rfl, rfl, rfl⟩ (fun _ d _ hd hr => ⟨d, hd, hr⟩)
            (fun _ _ hp => hp) (.inl hserial)
  simp only [checkClockStep]
  split
  · exact hkept _ rfl rfl
  · exact hkept _ rfl rfl

/-- A step that refuses no request that could run keeps a session sound. -/
theorem Sound.act (h : Sound s) {e : Event} (hnone : NoneRefused s e) : Sound (act s e) := by
  have hother : ∀ (p : Phase) (pending : List Waiting) (answers : List (Bool × Answer)),
      Sound { s with phase := p, pending := pending, answers := answers } := fun p pending answers =>
    h.of_less ⟨rfl, rfl, rfl, rfl, rfl⟩ (fun _ d _ hd hr => ⟨d, hd, hr⟩) (fun _ _ hp => hp) (.inl rfl)
  cases e with
  | arrive received => exact hother s.phase _ s.answers
  | turn input hangup =>
    simp only [UmSession.act]
    split
    · refine h.of_less ⟨rfl, rfl, rfl, rfl, rfl⟩ (fun _ d _ hd hr => ⟨d, hd, hr⟩) (fun _ _ hp => hp)
        (.inl ?_)
      simp only [turnStep]
      split
      · exact umDaemonJobInput_serial s.daemon input hangup
      · rfl
    · exact h
  | checkDone =>
    simp only [UmSession.act]
    split
    · rw [checkDoneStep]
      split
      · exact h.endJob _ false
      · exact hother .undone s.pending s.answers
    · exact h
  | checkClock deadlineOver claimOver graceOver alive =>
    simp only [UmSession.act]
    split
    · rename_i hphase
      exact h.checkClock fun hclaimed hover n hn => hnone hphase hclaimed hover n hn
    · exact h
  | remove empty =>
    simp only [UmSession.act]
    split
    · refine h.of_less ⟨rfl, rfl, rfl, rfl, rfl⟩ ?_ (fun _ _ hp => hp) (.inl rfl)
      intro i d r hd hr
      simp only [removeStep] at hd
      split at hd
      · exact request_of_setDirectory (fun _ hd' => by cases hd') hd hr
      · exact ⟨d, hd, hr⟩
    · exact h
  | accept queued leaves =>
    simp only [UmSession.act]
    split
    · split
      · simp only [umDaemonAccept]
        split
        · exact hother _ s.pending s.answers
        · split
          · exact (hother _ _ _).startJob _ _ queued
          · exact hother .stopped _ _
          · exact hother _ _ _
      · exact hother _ s.pending s.answers
    · exact h
  | guest event => exact h.guestStep event

/-! ### A request that is left can run -/

/-- The guest can still run request `n`. -/
def CanRun (s : Session) (n : ℕ) : Prop := ∃ gs : List GuestEvent, n ∈ (gs.foldl guestStep s).ran

theorem CanRun.of_step (e : GuestEvent) (h : CanRun (guestStep s e) n) : CanRun s n := by
  obtain ⟨gs, hgs⟩ := h
  exact ⟨e :: gs, hgs⟩

section CanRun

variable {s : Session} {i n : ℕ} {file : Bytes}

/-- A claimed request that is a command runs. -/
theorem canRun_claimed (hguest : s.guest = .claimed i n) (hd : s.results i = some d)
    (hreq : d.request = some (n, file)) (hrun : Runnable file) : CanRun s n := by
  have hread : guestStep s (.read true) = { s with guest := .parsed i n } := by
    have hbind : (s.results i).bind ResultDirectory.request = some (n, file) := by
      rw [hd]
      exact hreq
    simp only [guestStep, hguest, hbind]
    rw [if_neg (not_not.2 hrun), if_neg (by simp)]
  apply CanRun.of_step (.read true)
  rw [hread]
  refine ⟨[.run], ?_⟩
  simp [guestStep, hd]

/-- The queue has one file of a name. -/
theorem find?_queue (hnodup : (s.queue.map Prod.fst).Nodup) (hentry : (i, n, file) ∈ s.queue) :
    s.queue.find? (fun entry => entry.1 = i) = some (i, n, file) := by
  cases hfind : s.queue.find? (fun entry => entry.1 = i) with
  | none =>
    have hnot := List.find?_eq_none.1 hfind (i, n, file) hentry
    simp at hnot
  | some entry =>
    have hi : entry.1 = i := by simpa using List.find?_some hfind
    rw [List.inj_on_of_nodup_map hnodup (List.mem_of_find?_eq_some hfind) hentry hi]

/-- A guest that made the directory of a request that is in the queue runs it. -/
theorem canRun_made (hnodup : (s.queue.map Prod.fst).Nodup) (hentry : (i, n, file) ∈ s.queue)
    (hrun : Runnable file) (hguest : s.guest = .made i) (hd : s.results i = some d) :
    CanRun s n := by
  apply CanRun.of_step .claim
  simp only [guestStep, hguest, find?_queue hnodup hentry, hd]
  exact canRun_claimed rfl (setDirectory_self _ _ _) rfl hrun

/-- A guest that looks for a request finds one that is in the queue. -/
theorem canRun_looking (hnodup : (s.queue.map Prod.fst).Nodup) (hentry : (i, n, file) ∈ s.queue)
    (hrun : Runnable file) (hguest : s.guest = .looking) : CanRun s n := by
  have hlook : guestStep s (.look i) = { s with guest := .chosen i } := by
    simp only [guestStep]
    exact if_pos ⟨hguest, List.mem_map_of_mem hentry⟩
  apply CanRun.of_step (.look i)
  rw [hlook]
  apply CanRun.of_step (.makeDirectory true)
  exact canRun_made hnodup hentry hrun rfl (setDirectory_self _ _ _)

/-- A guest that runs another request comes back to look. -/
theorem canRun_running (hnodup : (s.queue.map Prod.fst).Nodup) (hentry : (i, n, file) ∈ s.queue)
    (hrun : Runnable file) (hguest : s.guest = .running j m) : CanRun s n := by
  apply CanRun.of_step (.finish 0)
  simp only [guestStep, hguest]
  exact canRun_looking hnodup hentry hrun rfl

theorem canRun_parsed (hnodup : (s.queue.map Prod.fst).Nodup) (hentry : (i, n, file) ∈ s.queue)
    (hrun : Runnable file) (hguest : s.guest = .parsed j m) : CanRun s n := by
  apply CanRun.of_step .run
  simp only [guestStep, hguest]
  split
  · exact canRun_running hnodup hentry hrun rfl
  · exact canRun_looking hnodup hentry hrun rfl

theorem canRun_busy (hnodup : (s.queue.map Prod.fst).Nodup) (hentry : (i, n, file) ∈ s.queue)
    (hrun : Runnable file) (hguest : s.guest = .claimed j m) : CanRun s n := by
  apply CanRun.of_step (.read true)
  simp only [guestStep, hguest]
  split
  · split
    · exact canRun_looking hnodup hentry hrun rfl
    · rw [if_neg (by simp)]
      exact canRun_parsed hnodup hentry hrun rfl
  · exact canRun_looking hnodup hentry hrun rfl

/-- Wherever the guest is, it comes to a command that is in the queue. -/
theorem canRun_queued (hnodup : (s.queue.map Prod.fst).Nodup) (hentry : (i, n, file) ∈ s.queue)
    (hrun : Runnable file) : CanRun s n := by
  cases hguest : s.guest with
  | looking => exact canRun_looking hnodup hentry hrun hguest
  | chosen j =>
    apply CanRun.of_step (.makeDirectory false)
    simp only [guestStep, hguest]
    exact canRun_looking hnodup hentry hrun rfl
  | claimed j m => exact canRun_busy hnodup hentry hrun hguest
  | parsed j m => exact canRun_parsed hnodup hentry hrun hguest
  | running j m => exact canRun_running hnodup hentry hrun hguest
  | made j =>
    cases hd : s.results j with
    | none =>
      have hback : guestStep s .claim = { s with guest := .looking } := by
        simp only [guestStep, hguest, hd]
        split
        · rename_i hnone
          cases hnone
        · rfl
      apply CanRun.of_step .claim
      rw [hback]
      exact canRun_looking hnodup hentry hrun rfl
    | some d =>
      by_cases hj : j = i
      · subst hj
        exact canRun_made hnodup hentry hrun hguest hd
      · -- another request is claimed first, and the queue keeps this one
        apply CanRun.of_step .claim
        have hkept : (i, n, file) ∈ s.queue.filter fun entry => entry.1 ≠ j :=
          List.mem_filter.2 ⟨hentry, by simpa using Ne.symm hj⟩
        simp only [guestStep, hguest, hd]
        split
        · exact canRun_busy ((List.filter_sublist.map Prod.fst).nodup hnodup) hkept hrun rfl
        · exact canRun_looking hnodup hentry hrun rfl

end CanRun

/-! ### Runs -/

theorem guestRun_refused (s : Session) (gs : List GuestEvent) :
    (gs.foldl guestStep s).refused = s.refused := by
  induction gs generalizing s with
  | nil => rfl
  | cons g gs ih => rw [List.foldl_cons, ih, (guestStep_kept s g).refused]

/-- A refused request that runs later was refused wrongly. -/
theorem CanRun.not_right {b : Bool} (h : CanRun s n) (hr : (n, b) ∈ s.refused) :
    ∃ gs : List GuestEvent, ¬ RefusedRight (gs.foldl guestStep s) := by
  obtain ⟨gs, hran⟩ := h
  refine ⟨gs, fun hright => (hright (n, b) ?_).2 hran⟩
  rw [guestRun_refused]
  exact hr

/-- What refusing the job's request leaves. -/
theorem step_refuse (deadlineOver claimOver graceOver alive : Bool) (hphase : s.phase = .undone)
    (hclaimed : s.daemon.claimed = false) (hover : claimOver = true)
    (hn : s.daemon.serial = some n) :
    (step s (.checkClock deadlineOver claimOver graceOver alive)).refused =
        (n, s.claims.contains n) :: s.refused ∧
      (step s (.checkClock deadlineOver claimOver graceOver alive)).queue = s.queue := by
  have hclock : ∃ d : Daemon, d.serial = some n ∧
      checkClockStep s deadlineOver claimOver graceOver alive =
        umDaemonEndJob (refuse { s with daemon := d }) 125 false := by
    simp only [checkClockStep]
    split
    · exact ⟨{ s.daemon with timedOut := true, killSent := true }, hn, if_pos ⟨hclaimed, hover⟩⟩
    · exact ⟨s.daemon, hn, if_pos ⟨hclaimed, hover⟩⟩
  obtain ⟨d, hserial, heq⟩ := hclock
  have hrefuse : refuse { s with daemon := d } =
      { s with daemon := d, refused := (n, s.claims.contains n) :: s.refused } := by
    simp only [refuse, hserial]
  rw [step, act, if_pos hphase, heq, hrefuse]
  exact ⟨rfl, rfl⟩

/-- Refusing a request that was claimed, or that is a command in the queue, is wrong. -/
theorem noneRefused_of_right (h : Sound s) {e : Event}
    (hright : ∀ gs : List GuestEvent, RefusedRight (gs.foldl guestStep (step s e))) :
    NoneRefused s e := by
  cases e with
  | checkClock deadlineOver claimOver graceOver alive =>
    intro hphase hclaimed hover n hn
    obtain ⟨hrefused, hqueue⟩ := step_refuse deadlineOver claimOver graceOver alive hphase
      hclaimed hover hn
    have hmem : (n, s.claims.contains n) ∈
        (step s (.checkClock deadlineOver claimOver graceOver alive)).refused := by
      rw [hrefused]
      exact List.mem_cons_self
    constructor
    · intro hclaim
      have hnot := (hright [] _ hmem).1
      rw [List.contains_iff_mem.2 hclaim] at hnot
      cases hnot
    · intro i file hentry hrun
      rw [← hqueue] at hentry
      obtain ⟨gs, hgs⟩ := (canRun_queued (by rw [hqueue]; exact h.nodup) hentry hrun).not_right hmem
      exact hgs (hright gs)
  | _ => trivial

/-- The refusals of a run are right, whatever the guest does next, if and only if no
request is refused that the guest has claimed or can still run. -/
theorem refused_never_runs_iff (es : List Event) :
    (∀ s ∈ states step initial es, ∀ gs : List GuestEvent,
        RefusedRight (gs.foldl guestStep s)) ↔ AllSteps step NoneRefused initial es := by
  have hinitial : Sound initial :=
    ⟨List.nodup_nil, (fun _ _ _ _ hd => nomatch hd), (fun _ _ hp => nomatch hp),
      (fun _ hn => nomatch hn), (fun _ hn => nomatch hn), (fun _ hn => nomatch hn),
      (fun _ hr => nomatch hr)⟩
  apply states_iff_allSteps_of_kept (I := Sound)
  · intro s e h _ hnone
    exact (h.act hnone).markLate
  · intro s e h _
    constructor
    · exact noneRefused_of_right h
    · intro hnone gs
      exact ((h.act hnone).markLate.guestRun gs).right
  · exact hinitial
  · exact fun gs => (hinitial.guestRun gs).right

/-- A client sends `true` to a guest that does not look for thirty seconds. -/
def guestLate : List Event :=
  [.arrive (ascii "EXEC 8 0\n\n4\ntrue\n"), .turn .nothing false, .accept true false,
    .turn .nothing false, .checkDone, .checkClock false true false true, .remove true]

/-- The client is told that its request did not run, and then the guest runs it. -/
theorem refused_request_runs :
    ¬ ∀ (es : List Event), ∀ s ∈ states step initial es, ∀ gs : List GuestEvent,
        RefusedRight (gs.foldl guestStep s) := by
  intro h
  have hlast := h guestLate _ (foldl_mem_states step initial guestLate)
    [.look 1, .makeDirectory true, .claim, .read true, .run]
  revert hlast
  decide +kernel

end NeoProot.UmSession
