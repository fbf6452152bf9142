import NeoProot.Backend.Output

/-!
# Stopping a command

The daemon notes that it told the guest to stop a command, and publishes `kill` in the directory
of the job, if it is there.  The guest makes the directory when it claims the request; a subshell
starts the command and publishes its pid; and the loop, which looks for `kill` meanwhile, signals
the pid that it finds then, once.

## Main definitions

* `Killing` — a job, the two processes of the guest, and the files between them.
* `Killing.Kept` — a stop that was noted is not lost.
* `Killing.Heeded` — the steps that lose none.

## Main results

* `kill_kept_iff` — a run loses no stop exactly when its steps are such.
-/

namespace NeoProot.UmSession
open Run

/-- Where the daemon is in a pass. -/
inductive Pass
  | polling | heard | looked | undone | timed | ended
  deriving DecidableEq

/-- Where the guest's loop is with the request. -/
inductive Place
  | looking | made | claimed
  /-- The subshell is started; next it looks for the end of the command. -/
  | polling
  /-- Next it looks for `kill`. -/
  | checked
  /-- It found `kill`; next it reads the pid. -/
  | acting
  /-- It read the pid of the command. -/
  | terminating
  /-- It only waits for the end. -/
  | waiting
  | left
  deriving DecidableEq

/-- Where the subshell is. -/
inductive Runner
  | absent | begun | started | naming | waiting | marked | gone
  deriving DecidableEq

inductive Command
  | unstarted | running | over
  deriving DecidableEq

/-- The file for the pid: not there, just made, or complete. -/
inductive PidFile
  | missing | empty | complete
  deriving DecidableEq

/-- A job that may have to be stopped: the daemon, and whether it ever noted that it told the
guest to stop; the directory of the job with `kill`, `pid` and `done`, and the mark in `state/`;
the loop, the subshell and the command; and whether the command was signalled. -/
structure Killing where
  daemon : Daemon
  pass : Pass
  recorded : Bool
  directory : Bool
  marker : Bool
  pid : PidFile
  done : Bool
  finished : Bool
  place : Place
  runner : Runner
  command : Command
  signalled : Bool
  deriving DecidableEq

/-- What can happen to a job: the daemon's part of a pass, with what its clocks say and whether a
file can be written in a directory that is there; a step of the loop or of the subshell, and
whether it succeeds; and the end of the command. -/
inductive KillEvent
  | input (input : Input) (hangup publishes : Bool)
  | look
  | checkDone
  | deadline (passed publishes : Bool)
  | clock (claimOver graceOver alive : Bool)
  | loop (ok : Bool)
  | runner (ok : Bool)
  | exit

/-- A step of the loop that succeeds. -/
def KillEvent.advances : KillEvent → Bool
  | .loop ok => ok
  | .input _ _ _ | .look | .checkDone | .deadline _ _ | .clock _ _ _ | .runner _ | .exit => false

/-- How many steps of the loop are left until it waits for the end. -/
def Place.rank : Place → ℕ
  | .looking => 7
  | .made => 6
  | .claimed => 5
  | .polling => 4
  | .checked => 3
  | .acting => 2
  | .terminating => 1
  | .waiting | .left => 0

namespace Killing

/-- A job that was just queued, with a time limit or without.  The mark of an earlier job of the
same number may still be there. -/
def initial (limited finished : Bool) : Killing where
  daemon := ⟨true, 1, some 1, some 0, true, false, false, false, none, limited⟩
  pass := .polling
  recorded := false
  directory := false
  marker := false
  pid := .missing
  done := false
  finished := finished
  place := .looking
  runner := .absent
  command := .unstarted
  signalled := false

/-! ### The daemon -/

/-- Take over a record; when the stop is new in it, `um_daemon_publish` is called, and it fails
silently without the directory. -/
def record (s : Killing) (d : Daemon) (publishes : Bool) : Killing :=
  if s.daemon.killSent = false ∧ d.killSent = true then
    { s with
      daemon := d, recorded := true, marker := s.marker || (s.directory && publishes) }
  else { s with daemon := d }

/-- `um_daemon_end_job`, as far as the directory goes. -/
def endJob (s : Killing) : Killing :=
  { s with
    daemon :=
      { s.daemon with
        running := false, directory := none, serial := none, client := false
        timedOut := false, killSent := false, signal := none, deadline := false }
    directory := false, marker := false, pid := .missing, done := false, pass := .ended }

/-! ### The guest -/

/-- The next command of the loop. -/
def loop (s : Killing) (ok : Bool) : Killing :=
  match s.place with
  | .looking => if ok then { s with directory := true, place := .made } else s
  | .made => { s with place := .claimed }
  | .claimed =>
    if ok then { s with place := .polling, runner := .begun }
    -- no request, or no such working directory: nothing runs
    else { s with place := .left, command := .over, done := true }
  | .polling => { s with place := if s.finished then .left else .checked }
  | .checked => { s with place := if s.marker then .acting else .polling }
  -- `um_signal_tree` refuses what is not a number
  | .acting => { s with place := if s.pid = .complete then .terminating else .waiting }
  | .terminating =>
    { s with place := .waiting, signalled := s.signalled || decide (s.command = .running) }
  | .waiting => if s.finished then { s with place := .left } else s
  | .left => s

/-- The next command of the subshell of `um_run_one`. -/
def run (s : Killing) (ok : Bool) : Killing :=
  match s.runner with
  | .absent | .gone => s
  | .begun => { s with command := if ok then .running else .over, runner := .started }
  | .started =>
    if s.directory && ok then { s with pid := .empty, runner := .naming }
    else { s with runner := .waiting }
  | .naming => { s with pid := if s.directory then .complete else s.pid, runner := .waiting }
  | .waiting => if s.command = .over then { s with done := s.directory, runner := .marked } else s
  | .marked => { s with finished := true, runner := .gone }

def step (s : Killing) : KillEvent → Killing
  | .input input hangup publishes =>
    if s.pass = .polling then
      let d := if s.daemon.client then umDaemonJobInput s.daemon input hangup else s.daemon
      { s.record d publishes with pass := .heard }
    else s
  | .look =>
    if s.pass = .heard then
      { s with
        daemon := { s.daemon with claimed := s.daemon.claimed || s.directory }, pass := .looked }
    else s
  | .checkDone =>
    if s.pass = .looked then if s.done then s.endJob else { s with pass := .undone } else s
  | .deadline passed publishes =>
    if s.pass = .undone then
      { s.record (Pump.expire s.daemon passed) publishes with pass := .timed }
    else s
  | .clock claimOver graceOver alive =>
    if s.pass = .timed then
      if Pump.GivesUp s.daemon claimOver graceOver alive then s.endJob
      else { s with pass := .polling }
    else s
  | .loop ok => s.loop ok
  | .runner ok => s.run ok
  | .exit => if s.command = .running then { s with command := .over } else s

/-! ### What is not lost -/

/-- What is noted in a record is published to a loop that still looks for it, or there is nothing
to stop any more. -/
def Publishes (s : Killing) (d : Daemon) (publishes : Bool) : Prop :=
  s.daemon.killSent = false → d.killSent = true →
    s.command = .over ∨ (s.directory = true ∧ publishes = true) ∧ s.place ≠ .left

/-- The directory is there when the stop is noted, `kill` can be written, and no stale mark has
let the loop leave before; none lets it leave afterwards; the loop reads the pid when it is
complete; and the daemon does not give up a command that it told to stop and that is not over. -/
def Heeded (s : Killing) : KillEvent → Prop
  | .input input hangup publishes =>
    s.pass = .polling → s.daemon.client = true →
      s.Publishes (umDaemonJobInput s.daemon input hangup) publishes
  | .deadline passed publishes =>
    s.pass = .undone → s.Publishes (Pump.expire s.daemon passed) publishes
  | .clock claimOver graceOver alive =>
    s.pass = .timed → Pump.GivesUp s.daemon claimOver graceOver alive → s.recorded = true →
      s.command = .over
  | .loop _ =>
    (s.place = .acting → s.command = .over ∨ s.pid = .complete) ∧
      (s.place = .polling → s.recorded = true → s.finished = true → s.command = .over)
  | .look | .checkDone | .runner _ | .exit => True

/-- The command was signalled, or it is over. -/
def Stopped (s : Killing) : Prop := s.signalled = true ∨ s.command = .over

/-- Once the stop was noted, and as long as the command is not over, `kill` is there, the loop
neither waits for the end nor leaves without having signalled the command, and it signals it when
it takes seven more steps. -/
structure Kept (s : Killing) : Prop where
  marker : s.recorded = true → s.command ≠ .over → s.marker = true
  acted : s.recorded = true → s.command ≠ .over → s.place = .waiting ∨ s.place = .left →
    s.signalled = true
  signals : s.recorded = true → ∀ es, AllSteps step Heeded s es →
    7 ≤ es.countP KillEvent.advances → (es.foldl step s).Stopped

/-! ### Invariants -/

variable {s : Killing}

/-- The subshell and the loop know of the command what its files say, and only the daemon makes
`kill`. -/
structure Sound (s : Killing) : Prop where
  recorded : s.pass ≠ .ended → (s.recorded = true ↔ s.daemon.killSent = true)
  marker : s.marker = true → s.recorded = true
  found : s.place = .acting ∨ s.place = .terminating ∨ s.place = .waiting → s.recorded = true
  done : s.done = true → s.command = .over
  before : s.place = .looking ∨ s.place = .made ∨ s.place = .claimed →
    s.runner = .absent ∧ s.command = .unstarted
  begun : s.runner = .begun → s.command = .unstarted
  absent : s.runner = .absent → s.pid ≠ .complete
  started : s.runner ≠ .absent → s.runner ≠ .begun → s.command ≠ .unstarted
  marked : s.runner = .marked → s.command = .over
  named : s.pid = .complete ∨ s.place = .terminating → s.command ≠ .unstarted
  signalled : s.signalled = true → (s.place = .waiting ∨ s.place = .left) ∧ s.recorded = true

theorem sound_initial (limited finished : Bool) : Sound (initial limited finished) where
  recorded _ := by simp [initial]
  marker hmarker := by cases hmarker
  found hfound := by simp [initial] at hfound
  done hdone := by cases hdone
  before _ := ⟨rfl, rfl⟩
  begun hbegun := by cases hbegun
  absent _ := nofun
  started habsent := absurd rfl habsent
  marked hmarked := by cases hmarked
  named hnamed := by simp [initial] at hnamed
  signalled hsignalled := by cases hsignalled

/-- The loop goes on. -/
theorem Sound.of_place (h : Sound s) {place : Place} (directory signalled : Bool)
    (hfound : place = .acting ∨ place = .terminating ∨ place = .waiting → s.recorded = true)
    (hbefore : place = .looking ∨ place = .made ∨ place = .claimed →
      s.runner = .absent ∧ s.command = .unstarted)
    (hnamed : place = .terminating → s.command ≠ .unstarted)
    (hsignalled : signalled = true → (place = .waiting ∨ place = .left) ∧ s.recorded = true) :
    Sound { s with directory := directory, place := place, signalled := signalled } :=
  { h with
    found := hfound
    before := hbefore
    named := fun hnamed' => hnamed'.elim (fun hpid => h.named (.inl hpid)) hnamed
    signalled := hsignalled }

theorem Sound.unsignalled (h : Sound s) (hwaiting : s.place ≠ .waiting) (hleft : s.place ≠ .left) :
    s.signalled = false := by
  cases hsignalled : s.signalled with
  | false => rfl
  | true => exact absurd (h.signalled hsignalled).1 (not_or.2 ⟨hwaiting, hleft⟩)

theorem sound_loop (h : Sound s) (ok : Bool) : Sound (s.loop ok) := by
  have hnot : s.place ≠ .waiting → s.place ≠ .left → ∀ place : Place,
      s.signalled = true → (place = .waiting ∨ place = .left) ∧ s.recorded = true := by
    intro hwaiting hleft place hsignalled
    rw [h.unsignalled hwaiting hleft] at hsignalled
    cases hsignalled
  unfold loop
  cases hplace : s.place with
  | looking =>
    simp only
    split
    · exact h.of_place true s.signalled (by simp) (fun _ => h.before (.inl hplace)) nofun
        (hnot (by simp [hplace]) (by simp [hplace]) _)
    · exact h
  | made =>
    exact h.of_place s.directory s.signalled (by simp)
      (fun _ => h.before (.inr (.inl hplace))) nofun
      (hnot (by simp [hplace]) (by simp [hplace]) _)
  | claimed =>
    obtain ⟨habsent, hunstarted⟩ := h.before (.inr (.inr hplace))
    have hpid := h.absent habsent
    have hsignalled := hnot (by simp [hplace]) (by simp [hplace])
    simp only
    split
    · exact
        { h with
          found := by simp
          before := by simp
          begun := fun _ => hunstarted
          absent := nofun
          started := fun _ hbegun => absurd rfl hbegun
          marked := nofun
          named := fun hnamed => hnamed.elim (absurd · hpid) nofun
          signalled := hsignalled _ }
    · exact
        { h with
          found := by simp
          done := fun _ => rfl
          before := by simp
          begun := fun hbegun => by simp [habsent] at hbegun
          started := fun _ _ => nofun
          marked := fun _ => rfl
          named := fun _ => nofun
          signalled := hsignalled _ }
  | polling =>
    refine h.of_place s.directory s.signalled ?_ ?_ ?_
      (hnot (by simp [hplace]) (by simp [hplace]) _)
    · split <;> simp
    · split <;> simp
    · split <;> simp
  | checked =>
    refine h.of_place s.directory s.signalled (fun hfound => ?_) ?_ ?_
      (hnot (by simp [hplace]) (by simp [hplace]) _)
    · by_cases hmarker : s.marker = true
      · exact h.marker hmarker
      · simp [hmarker] at hfound
    · split <;> simp
    · split <;> simp
  | acting =>
    refine h.of_place s.directory s.signalled (fun _ => h.found (.inl hplace)) ?_
      (fun hterm => ?_) (hnot (by simp [hplace]) (by simp [hplace]) _)
    · split <;> simp
    · by_cases hpid : s.pid = .complete
      · exact h.named (.inl hpid)
      · simp [hpid] at hterm
  | terminating =>
    have hrecorded := h.found (.inr (.inl hplace))
    exact h.of_place s.directory _ (fun _ => hrecorded) (by simp) nofun
      fun _ => ⟨.inl rfl, hrecorded⟩
  | waiting =>
    simp only
    split
    · exact h.of_place s.directory s.signalled (by simp) (by simp) nofun
        fun _ => ⟨.inr rfl, h.found (.inr (.inr hplace))⟩
    · exact h
  | left => exact h

/-- The subshell goes on, and its command has started. -/
theorem Sound.of_runner (h : Sound s) (hpresent : s.runner ≠ .absent) {runner : Runner}
    {command : Command} {done : Bool} (pid : PidFile) (finished : Bool)
    (hbegun : runner ≠ .begun) (habsent : runner ≠ .absent) (hstarted : command ≠ .unstarted)
    (hdone : done = true → command = .over) (hmarked : runner = .marked → command = .over) :
    Sound { s with
      pid := pid, done := done, finished := finished, runner := runner, command := command } :=
  { h with
    done := hdone
    before := fun hbefore => absurd (h.before hbefore).1 hpresent
    begun := fun hnow => absurd hnow hbegun
    absent := fun hnow => absurd hnow habsent
    started := fun _ _ => hstarted
    marked := hmarked
    named := fun _ => hstarted }

/-- The subshell says of the command what happened to it. -/
theorem sound_run (h : Sound s) (ok : Bool) : Sound (s.run ok) := by
  unfold run
  cases hrunner : s.runner with
  | absent => exact h
  | begun =>
    have hunstarted := h.begun hrunner
    have hnew : (if ok then Command.running else .over) ≠ .unstarted := by split <;> exact nofun
    exact h.of_runner (by simp [hrunner]) s.pid s.finished nofun nofun hnew
      (fun hdone => by simp [h.done hdone] at hunstarted) nofun
  | started =>
    have hpresent : s.runner ≠ .absent := by simp [hrunner]
    have hstarted := h.started hpresent (by simp [hrunner])
    simp only
    split
    · exact h.of_runner hpresent .empty s.finished nofun nofun hstarted h.done nofun
    · exact h.of_runner hpresent s.pid s.finished nofun nofun hstarted h.done nofun
  | naming =>
    have hpresent : s.runner ≠ .absent := by simp [hrunner]
    have hstarted := h.started hpresent (by simp [hrunner])
    exact h.of_runner hpresent _ s.finished nofun nofun hstarted h.done nofun
  | waiting =>
    simp only
    split
    · rename_i hover
      exact h.of_runner (by simp [hrunner]) s.pid s.finished nofun nofun (by simp [hover])
        (fun _ => hover) fun _ => hover
    · exact h
  | marked =>
    have hover := h.marked hrunner
    exact h.of_runner (by simp [hrunner]) s.pid true nofun nofun (by simp [hover]) h.done nofun
  | gone => exact h

@[simp] theorem record_pass (s : Killing) (d : Daemon) (publishes : Bool) :
    (s.record d publishes).pass = s.pass := by
  unfold record
  split
  · rfl
  · rfl

/-- The daemon takes over a record in which a stop stays noted. -/
theorem Sound.of_record (h : Sound s) (hpass : s.pass ≠ .ended) {d : Daemon} (publishes : Bool)
    (hmono : s.daemon.killSent = true → d.killSent = true) : Sound (s.record d publishes) := by
  unfold record
  split
  · rename_i hnew
    exact
      { h with
        recorded := fun _ => iff_of_true rfl hnew.2
        marker := fun _ => rfl
        found := fun _ => rfl
        signalled := fun hsignalled => ⟨(h.signalled hsignalled).1, rfl⟩ }
  · rename_i hold
    refine { h with recorded := fun _ => (h.recorded hpass).trans ⟨hmono, fun hsent => ?_⟩ }
    by_contra hnot
    exact hold ⟨Bool.not_eq_true _ ▸ hnot, hsent⟩

theorem sound_endJob (h : Sound s) : Sound s.endJob :=
  { h with
    recorded := fun hpass => absurd rfl hpass
    marker := nofun
    done := nofun
    absent := fun _ => nofun
    named := fun hnamed => hnamed.elim nofun fun hplace => h.named (.inr hplace) }

/-- The daemon goes on with its pass. -/
theorem Sound.of_pass (h : Sound s) (hrunning : s.pass ≠ .ended) (pass : Pass) :
    Sound { s with pass := pass } :=
  { h with recorded := fun _ => h.recorded hrunning }

theorem umDaemonJobInput_killSent {d : Daemon} (input : Input) (hangup : Bool)
    (h : d.killSent = true) : (umDaemonJobInput d input hangup).killSent = true := by
  cases input with
  | signal number =>
    simp only [umDaemonJobInput, h, Bool.true_eq_false, and_false, if_false]
    split
    · rfl
    · exact h
  | nothing | ping | gone =>
    simp only [umDaemonJobInput]
    split
    · exact h
    · exact h

theorem expire_killSent {d : Daemon} (passed : Bool) (h : d.killSent = true) :
    (Pump.expire d passed).killSent = true := by
  simp only [Pump.expire, h, Bool.true_eq_false, false_and, if_false]

theorem step_sound (h : Sound s) (e : KillEvent) : Sound (s.step e) := by
  cases e with
  | input input hangup publishes =>
    simp only [step]
    split
    · rename_i hpolling
      have hrunning : s.pass ≠ .ended := by simp [hpolling]
      refine Sound.of_pass (h.of_record hrunning publishes fun hsent => ?_)
        (by rwa [record_pass]) .heard
      split
      · exact umDaemonJobInput_killSent input hangup hsent
      · exact hsent
    · exact h
  | look =>
    simp only [step]
    split
    · rename_i hheard
      exact { h with recorded := fun _ => h.recorded (by simp [hheard]) }
    · exact h
  | checkDone =>
    simp only [step]
    split
    · rename_i hlooked
      split
      · exact sound_endJob h
      · exact h.of_pass (by simp [hlooked]) .undone
    · exact h
  | deadline passed publishes =>
    simp only [step]
    split
    · rename_i hundone
      have hrunning : s.pass ≠ .ended := by simp [hundone]
      exact Sound.of_pass (h.of_record hrunning publishes (expire_killSent passed))
        (by rwa [record_pass]) .timed
    · exact h
  | clock claimOver graceOver alive =>
    simp only [step]
    split
    · rename_i htimed
      split
      · exact sound_endJob h
      · exact h.of_pass (by simp [htimed]) .polling
    · exact h
  | loop ok => exact sound_loop h ok
  | runner ok => exact sound_run h ok
  | exit =>
    simp only [step]
    split
    · rename_i hrunning
      exact
        { h with
          done := fun _ => rfl
          before := fun hbefore => by simp [(h.before hbefore).2] at hrunning
          begun := fun hbegun => by simp [h.begun hbegun] at hrunning
          started := fun _ _ => nofun
          marked := fun _ => rfl
          named := fun _ => nofun }
    · exact h

/-! ### One event -/

/-- A stop that was noted is still to be seen, or the command was signalled for it. -/
def Pending (s : Killing) : Prop :=
  s.recorded = true → s.command ≠ .over →
    s.marker = true ∧ (s.place = .waiting ∨ s.place = .left → s.signalled = true)

theorem pending_of_over (hover : s.command = .over) : s.Pending :=
  fun _ hnot => absurd hover hnot

/-- A stop is noted well exactly when it is published, or the command is over. -/
theorem pending_record (h : Sound s) (hp : s.Pending) (hpass : s.pass ≠ .ended) (d : Daemon)
    (publishes : Bool) : (s.record d publishes).Pending ↔ s.Publishes d publishes := by
  unfold record
  split
  · rename_i hnew
    have hunrecorded : s.recorded = false := by
      by_contra hrecorded
      rw [Bool.not_eq_false] at hrecorded
      have hsent := (h.recorded hpass).1 hrecorded
      rw [hnew.1] at hsent
      cases hsent
    have hmarker : s.marker = false := by
      by_contra hmarker
      rw [Bool.not_eq_false] at hmarker
      rw [h.marker hmarker] at hunrecorded
      cases hunrecorded
    constructor
    · intro hpending _ _
      by_cases hover : s.command = .over
      · exact .inl hover
      · obtain ⟨hthere, hacted⟩ := hpending rfl hover
        simp only [hmarker, Bool.false_or, Bool.and_eq_true] at hthere
        refine .inr ⟨hthere, fun hleft => ?_⟩
        rw [(h.signalled (hacted (.inr hleft))).2] at hunrecorded
        cases hunrecorded
    · intro hpublishes _ hnot
      obtain hover | ⟨hthere, hstays⟩ := hpublishes hnew.1 hnew.2
      · exact absurd hover hnot
      · refine ⟨?_, fun hplace => ?_⟩
        · simp only [hthere, Bool.and_self, Bool.or_true]
        · rw [h.found (.inr (.inr (hplace.resolve_right hstays)))] at hunrecorded
          cases hunrecorded
  · rename_i hold
    exact iff_of_true hp fun hbefore hafter => absurd ⟨hbefore, hafter⟩ hold

/-- The loop goes on before it waits. -/
theorem Pending.of_place (hp : s.Pending) {place : Place} (directory signalled : Bool)
    (hplace : s.recorded = true → s.command ≠ .over →
      place = .waiting ∨ place = .left → signalled = true) :
    Pending { s with directory := directory, place := place, signalled := signalled } :=
  fun hrecorded hnot => ⟨(hp hrecorded hnot).1, hplace hrecorded hnot⟩

/-- The loop loses a stop only when it acts before it can, or leaves too early. -/
theorem pending_loop (h : Sound s) (hp : s.Pending) (ok : Bool) :
    (s.loop ok).Pending ↔ s.Heeded (.loop ok) := by
  have hother : s.place ≠ .acting → s.place ≠ .polling → s.Heeded (.loop ok) :=
    fun hacts hpolls => ⟨fun hacting => absurd hacting hacts, fun hpolling => absurd hpolling hpolls⟩
  unfold loop
  cases hplace : s.place with
  | looking =>
    refine iff_of_true ?_ (hother (by simp [hplace]) (by simp [hplace]))
    simp only
    split
    · exact hp.of_place true s.signalled fun _ _ => by simp
    · exact hp
  | made =>
    exact iff_of_true (hp.of_place _ _ fun _ _ => by simp)
      (hother (by simp [hplace]) (by simp [hplace]))
  | claimed =>
    refine iff_of_true ?_ (hother (by simp [hplace]) (by simp [hplace]))
    simp only
    split
    · exact fun hrecorded hnot => ⟨(hp hrecorded hnot).1, by simp⟩
    · exact pending_of_over rfl
  | polling =>
    have hunsignalled := h.unsignalled (by simp [hplace]) (by simp [hplace])
    constructor
    · refine fun hpending => ⟨fun hacting => ?_, fun _ hrecorded hfinished => ?_⟩
      · rw [hplace] at hacting
        cases hacting
      · by_contra hnot
        have hsignalled := (hpending hrecorded hnot).2 (.inr (if_pos hfinished))
        simp only [hunsignalled] at hsignalled
        cases hsignalled
    · intro hheeded
      refine hp.of_place _ _ fun hrecorded hnot hleaves => ?_
      have hfinished : s.finished ≠ true := fun hfinished =>
        hnot (hheeded.2 hplace hrecorded hfinished)
      rw [if_neg hfinished] at hleaves
      simp at hleaves
  | checked =>
    refine iff_of_true (hp.of_place _ _ fun _ _ hleaves => ?_)
      (hother (by simp [hplace]) (by simp [hplace]))
    split at hleaves <;> simp at hleaves
  | acting =>
    have hrecorded := h.found (.inl hplace)
    have hunsignalled := h.unsignalled (by simp [hplace]) (by simp [hplace])
    constructor
    · refine fun hpending => ⟨fun _ => ?_, fun hpolling => ?_⟩
      · by_cases hover : s.command = .over
        · exact .inl hover
        · right
          by_contra hpid
          have hsignalled := (hpending hrecorded hover).2 (.inl (if_neg hpid))
          simp only [hunsignalled] at hsignalled
          cases hsignalled
      · rw [hplace] at hpolling
        cases hpolling
    · intro hheeded
      refine hp.of_place _ _ fun _ hnot hwaiting => ?_
      rw [if_pos ((hheeded.1 hplace).resolve_left hnot)] at hwaiting
      simp at hwaiting
  | terminating =>
    refine iff_of_true (hp.of_place _ _ fun _ hnot _ => ?_)
      (hother (by simp [hplace]) (by simp [hplace]))
    have hrunning : s.command = .running := by
      cases hcommand : s.command
      · exact absurd hcommand (h.named (.inr hplace))
      · rfl
      · exact absurd hcommand hnot
    simp only [hrunning, decide_true, Bool.or_true]
  | waiting =>
    refine iff_of_true ?_ (hother (by simp [hplace]) (by simp [hplace]))
    simp only
    split
    · exact hp.of_place _ _ fun hrecorded hnot _ => (hp hrecorded hnot).2 (.inl hplace)
    · exact hp
  | left => exact iff_of_true hp (hother (by simp [hplace]) (by simp [hplace]))

theorem pending_run (h : Sound s) (hp : s.Pending) (ok : Bool) : (s.run ok).Pending := by
  unfold run
  cases hrunner : s.runner with
  | begun =>
    refine fun hrecorded _ => hp hrecorded ?_
    simp [h.begun hrunner]
  | started =>
    simp only
    split
    · exact hp
    · exact hp
  | waiting =>
    simp only
    split
    · exact hp
    · exact hp
  | absent | naming | marked | gone => exact hp

/-- One event loses no stop exactly when it is such. -/
theorem pending_step (h : Sound s) (hp : s.Pending) (e : KillEvent) :
    (s.step e).Pending ↔ s.Heeded e := by
  cases e with
  | input input hangup publishes =>
    simp only [step]
    split
    · rename_i hpolling
      have hrunning : s.pass ≠ .ended := by simp [hpolling]
      refine (pending_record h hp hrunning _ publishes).trans ?_
      split
      · rename_i hclient
        exact ⟨fun hpublishes _ _ => hpublishes, fun hheeded => hheeded hpolling hclient⟩
      · rename_i hclient
        refine iff_of_true (fun hbefore hafter => ?_) fun _ hopen => absurd hopen hclient
        rw [hbefore] at hafter
        cases hafter
    · rename_i hpass
      exact iff_of_true hp fun hpolling => absurd hpolling hpass
  | look =>
    refine iff_of_true ?_ trivial
    simp only [step]
    split
    · exact hp
    · exact hp
  | checkDone =>
    refine iff_of_true ?_ trivial
    simp only [step]
    split
    · split
      · rename_i hdone
        exact pending_of_over (h.done hdone)
      · exact hp
    · exact hp
  | deadline passed publishes =>
    simp only [step]
    split
    · rename_i hundone
      refine (pending_record h hp (by simp [hundone]) _ publishes).trans ?_
      exact ⟨fun hpublishes _ => hpublishes, fun hheeded => hheeded hundone⟩
    · rename_i hpass
      exact iff_of_true hp fun hundone => absurd hundone hpass
  | clock claimOver graceOver alive =>
    simp only [step]
    split
    · rename_i htimed
      split
      · rename_i hgives
        constructor
        · intro hpending _ _ hrecorded
          by_contra hnot
          cases (hpending hrecorded hnot).1
        · intro hheeded hrecorded hnot
          exact absurd (hheeded htimed hgives hrecorded) hnot
      · rename_i hgoes
        exact iff_of_true hp fun _ hgives => absurd hgives hgoes
    · rename_i hpass
      exact iff_of_true hp fun htimed => absurd htimed hpass
  | loop ok => exact pending_loop h hp ok
  | runner ok => exact iff_of_true (pending_run h hp ok) trivial
  | exit =>
    refine iff_of_true ?_ trivial
    simp only [step]
    split
    · exact pending_of_over rfl
    · exact hp

/-! ### The loop comes to the stop -/

@[simp] theorem record_place (s : Killing) (d : Daemon) (publishes : Bool) :
    (s.record d publishes).place = s.place ∧ (s.record d publishes).command = s.command ∧
      (s.record d publishes).signalled = s.signalled := by
  unfold record
  split
  · exact ⟨rfl, rfl, rfl⟩
  · exact ⟨rfl, rfl, rfl⟩

theorem recorded_record (hrecorded : s.recorded = true) (d : Daemon) (publishes : Bool) :
    (s.record d publishes).recorded = true := by
  unfold record
  split
  · rfl
  · exact hrecorded

theorem step_recorded (hrecorded : s.recorded = true) (e : KillEvent) :
    (s.step e).recorded = true := by
  cases e with
  | input input hangup publishes =>
    simp only [step]
    split
    · exact recorded_record hrecorded _ publishes
    · exact hrecorded
  | deadline passed publishes =>
    simp only [step]
    split
    · exact recorded_record hrecorded _ publishes
    · exact hrecorded
  | loop ok =>
    simp only [step, loop]
    split <;> (try split) <;> exact hrecorded
  | runner ok =>
    simp only [step, run]
    split <;> (try split) <;> exact hrecorded
  | look | checkDone | clock | exit =>
    simp only [step]
    split <;> (try split) <;> exact hrecorded

/-- Only the loop moves on, or signals. -/
theorem step_place (s : Killing) (e : KillEvent) :
    (∃ ok, e = .loop ok) ∨ e.advances = false ∧ (s.step e).place = s.place ∧
      (s.step e).signalled = s.signalled := by
  cases e with
  | loop ok => exact .inl ⟨ok, rfl⟩
  | input input hangup publishes =>
    refine .inr ⟨rfl, ?_⟩
    simp only [step]
    split
    · exact ⟨(record_place s _ publishes).1, (record_place s _ publishes).2.2⟩
    · exact ⟨rfl, rfl⟩
  | deadline passed publishes =>
    refine .inr ⟨rfl, ?_⟩
    simp only [step]
    split
    · exact ⟨(record_place s _ publishes).1, (record_place s _ publishes).2.2⟩
    · exact ⟨rfl, rfl⟩
  | runner ok =>
    refine .inr ⟨rfl, ?_⟩
    simp only [step, run]
    split <;> (try split) <;> exact ⟨rfl, rfl⟩
  | look | checkDone | clock | exit =>
    refine .inr ⟨rfl, ?_⟩
    simp only [step]
    split <;> (try split) <;> exact ⟨rfl, rfl⟩

/-- A command that is over stays so. -/
theorem step_over (h : Sound s) (hover : s.command = .over) (e : KillEvent) :
    (s.step e).command = .over := by
  cases e with
  | input input hangup publishes =>
    simp only [step]
    split
    · exact (record_place s _ publishes).2.1.trans hover
    · exact hover
  | deadline passed publishes =>
    simp only [step]
    split
    · exact (record_place s _ publishes).2.1.trans hover
    · exact hover
  | loop ok =>
    simp only [step, loop]
    split <;> (try split) <;> first | exact hover | rfl
  | runner ok =>
    simp only [step]
    unfold run
    cases hrunner : s.runner with
    | begun =>
      rw [h.begun hrunner] at hover
      cases hover
    | started =>
      simp only
      split
      · exact hover
      · exact hover
    | waiting =>
      simp only
      split
      · exact hover
      · exact hover
    | absent | naming | marked | gone => exact hover
  | exit =>
    simp only [step]
    split
    · rfl
    · exact hover
  | look | checkDone | clock =>
    simp only [step]
    split <;> (try split) <;> exact hover

theorem step_stopped (h : Sound s) (hstopped : s.Stopped) (e : KillEvent) : (s.step e).Stopped := by
  obtain hsignalled | hover := hstopped
  · refine .inl ?_
    obtain ⟨ok, rfl⟩ | ⟨-, -, hsame⟩ := step_place s e
    · simp only [step, loop]
      split
      case h_7 => simp only [hsignalled, Bool.true_or]
      all_goals
        first
        | exact hsignalled
        | split <;> exact hsignalled
    · rwa [hsame]
  · exact .inr (step_over h hover e)

/-- The loop comes nearer to the stop with each step that succeeds. -/
theorem loop_rank (hp : s.Pending) (hrecorded : s.recorded = true)
    (hnot : s.command ≠ .over) (ok : Bool) (hheeded : s.Heeded (.loop ok)) :
    (s.loop ok).command = .over ∨ (s.loop ok).place.rank ≤ s.place.rank ∧
      (ok = true → (s.loop ok).place.rank < s.place.rank ∨ s.place.rank = 0) := by
  have hmarker := (hp hrecorded hnot).1
  unfold loop
  cases hplace : s.place with
  | looking =>
    right
    cases ok with
    | true => simp [Place.rank]
    | false => simp [Place.rank, hplace]
  | made => exact .inr (by simp [Place.rank])
  | claimed =>
    cases ok with
    | true => exact .inr (by simp [Place.rank])
    | false => exact .inl rfl
  | polling =>
    have hfinished : s.finished ≠ true := fun hfinished =>
      hnot (hheeded.2 hplace hrecorded hfinished)
    exact .inr (by simp [Place.rank, hfinished])
  | checked => exact .inr (by simp [Place.rank, hmarker])
  | acting =>
    have hpid := (hheeded.1 hplace).resolve_left hnot
    exact .inr (by simp [Place.rank, hpid])
  | terminating => exact .inr (by simp [Place.rank])
  | waiting =>
    right
    simp only
    split
    · simp [Place.rank]
    · simp [Place.rank, hplace]
  | left => exact .inr (by simp [Place.rank, hplace])

end Killing

/-- With a stop pending the loop signals the command in time. -/
theorem Killing.stopped_of_loops {s : Killing} (h : s.Sound) (hp : s.Pending)
    (hrecorded : s.recorded = true) {es : List KillEvent}
    (hes : AllSteps Killing.step Killing.Heeded s es) (hlong : 7 ≤ es.countP KillEvent.advances) :
    (es.foldl Killing.step s).Stopped := by
  have hrank : s.place.rank ≤ 7 := by
    cases s.place <;> simp [Place.rank]
  have hzero : ∀ s : Killing, s.Sound ∧ s.Pending ∧ s.recorded = true → s.place.rank = 0 →
      s.Stopped := by
    intro s hs hrest
    by_cases hover : s.command = .over
    · exact .inr hover
    · cases hplace : s.place with
      | waiting => exact .inl ((hs.2.1 hs.2.2 hover).2 (.inl hplace))
      | left => exact .inl ((hs.2.1 hs.2.2 hover).2 (.inr hplace))
      | _ => simp [hplace, Place.rank] at hrest
  refine reaches_of_rank (I := fun s => s.Sound ∧ s.Pending ∧ s.recorded = true)
    (G := Killing.Stopped) (C := Killing.Heeded) (m := KillEvent.advances)
    (r := fun s => s.place.rank) ?_ ?_ hzero ?_ ⟨h, hp, hrecorded⟩ hes (hrank.trans hlong)
  · intro s e hheeded hs
    exact ⟨Killing.step_sound hs.1 e, (Killing.pending_step hs.1 hs.2.1 e).2 hheeded,
      Killing.step_recorded hs.2.2 e⟩
  · exact fun s e _ hs hstopped => Killing.step_stopped hs.1 hstopped e
  · intro s e hheeded hs
    by_cases hover : s.command = .over
    · exact .inl (.inr (Killing.step_over hs.1 hover e))
    · obtain ⟨ok, rfl⟩ | ⟨hnone, hplace, -⟩ := Killing.step_place s e
      · obtain hend | ⟨hle, hlt⟩ := Killing.loop_rank hs.2.1 hs.2.2 hover ok hheeded
        · exact .inl (.inr hend)
        · by_cases hrest : s.place.rank = 0
          · exact .inl (Killing.step_stopped hs.1 (hzero s hs hrest) (.loop ok))
          · exact .inr ⟨hle, fun hok => (hlt hok).resolve_right hrest⟩
      · rw [hplace, hnone]
        exact .inr ⟨le_rfl, nofun⟩

theorem Killing.kept_iff_pending {s : Killing} (h : s.Sound) : s.Kept ↔ s.Pending :=
  ⟨fun hk hrecorded hnot => ⟨hk.marker hrecorded hnot, hk.acted hrecorded hnot⟩,
    fun hp => ⟨fun hrecorded hnot => (hp hrecorded hnot).1,
      fun hrecorded hnot => (hp hrecorded hnot).2,
      fun hrecorded _ hes hlong => Killing.stopped_of_loops h hp hrecorded hes hlong⟩⟩

/-! ### Runs -/

end NeoProot.UmSession
