import NeoProot.Backend.Request
import NeoProot.Lib.Run

/-!
# The daemon of a session and its guest

The daemon of a UM session serves one command at a time: it writes the request to
`queue/<id>`, watches `results/<id>` and ends the job when the guest published
`done`, when the guest did not claim the request in time, or when it ignores being
stopped.  The guest's loop moves a request out of the queue, reads it, runs it and
publishes its status.  Both work on the same directories, one file operation at a
time, so a step here is one client, one part of a turn of the daemon between two
looks at the directories, or one command of the loop.

## Main definitions

* `Session` — the daemon, its clients, the directories and the guest.
* `Event`, `step` — what can happen, and what it does.
* `Outstanding` — a request is not finished.
* `refuse` — a job that ends because nobody claimed it.
-/

namespace NeoProot.UmSession

/-! ### The state -/

/-- A client that waits at the control socket; `late` when a request was outstanding at
some time while it waited. -/
structure Waiting where
  received : Bytes
  late : Bool
  deriving DecidableEq

/-- `results/<id>`: the request with its number, and the status behind `done`. -/
structure ResultDirectory where
  request : Option (ℕ × Bytes)
  done : Option ℕ
  deriving DecidableEq

/-- Where the daemon is in a turn of its loop. -/
inductive Phase
  | polling
  /-- It looked whether the directory of the job is there. -/
  | looked
  /-- It saw that the job is not done. -/
  | undone
  /-- It removed the files of an ended job, and not yet the directory. -/
  | removing (id : ℕ) (stops : Bool)
  | polled
  | stopped
  deriving DecidableEq

/-- The record of the daemon.  Requests are numbered as they are started, and `serial` is
the number of the job's. -/
structure Daemon where
  running : Bool
  id : ℕ
  directory : Option ℕ
  serial : Option ℕ
  client : Bool
  claimed : Bool
  timedOut : Bool
  killSent : Bool
  signal : Option ℕ
  deadline : Bool
  deriving DecidableEq

/-- Where the guest is in its loop. -/
inductive Guest
  | looking
  | chosen (id : ℕ)
  | made (id : ℕ)
  | claimed (id serial : ℕ)
  | parsed (id serial : ℕ)
  | running (id serial : ℕ)
  deriving DecidableEq

/-- A session, with what happened so far: the answers to the commands of clients, each
with the client's `late`, the statuses sent, the requests that the guest claimed and
ran, those that were refused for not being claimed, each with whether it was, and
whether a request was started while another was outstanding. -/
structure Session where
  daemon : Daemon
  phase : Phase
  readable : Bool
  pending : List Waiting
  queue : List (ℕ × ℕ × Bytes)
  results : ℕ → Option ResultDirectory
  guest : Guest
  started : ℕ
  answers : List (Bool × Answer)
  exits : List (Option ℕ × ℕ)
  claims : List ℕ
  ran : List ℕ
  refused : List (ℕ × Bool)
  overlapped : Bool

/-- A session whose daemon and guest have just begun. -/
def initial : Session :=
  ⟨⟨false, 0, none, none, false, false, false, false, none, false⟩, .polling, false, [], [],
    fun _ => none, .looking, 0, [], [], [], [], [], false⟩

/-- The guest has claimed a request and not finished it. -/
def Guest.busy : Guest → Bool
  | .looking | .chosen _ | .made _ => false
  | .claimed _ _ | .parsed _ _ | .running _ _ => true

/-- The directory that the guest works on. -/
def Guest.directory : Guest → Option ℕ
  | .looking => none
  | .chosen id | .made id | .claimed id _ | .parsed id _ | .running id _ => some id

/-- A request is not finished: its job runs, it can still be claimed, or the guest has it. -/
def Outstanding (s : Session) : Prop :=
  s.daemon.running = true ∨ s.queue ≠ [] ∨ s.guest.busy = true

instance (s : Session) : Decidable (Outstanding s) :=
  inferInstanceAs (Decidable (_ ∨ _ ∨ _))

/-! ### The daemon -/

/-- What the client of the running job can send: nothing, a line, or the end. -/
inductive Input
  | nothing | signal (number : ℕ) | ping | gone

/-- Read from the client of the running job, and look whether it hung up. -/
def umDaemonJobInput (d : Daemon) (input : Input) (hangup : Bool) : Daemon :=
  let d := match input with
    | .signal number =>
      if 0 < number ∧ number < 128 ∧ d.killSent = false then
        { d with signal := some number, killSent := true }
      else d
    | .gone => { d with client := false }
    | .nothing | .ping => d
  if hangup then { d with client := false } else d

def setDirectory (results : ℕ → Option ResultDirectory) (id : ℕ) (d : Option ResultDirectory) :
    ℕ → Option ResultDirectory :=
  fun i => if i = id then d else results i

@[simp] theorem setDirectory_self (results : ℕ → Option ResultDirectory) (id : ℕ)
    (d : Option ResultDirectory) : setDirectory results id d id = d := if_pos rfl

theorem setDirectory_of_ne {results : ℕ → Option ResultDirectory} {id i : ℕ}
    (h : i ≠ id) (d : Option ResultDirectory) : setDirectory results id d i = results i := if_neg h

/-- The status that a client is sent. -/
def exitStatus (d : Daemon) (status : ℕ) : ℕ :=
  if d.timedOut then 124
  else match d.signal with
    | some number => 128 + number
    | none => if 255 < status then 125 else status

/-- End the job up to the removal of its directory. -/
def umDaemonEndJob (s : Session) (status : ℕ) (stops : Bool) : Session :=
  { s with
    exits := if s.daemon.client then (s.daemon.serial, exitStatus s.daemon status) :: s.exits
      else s.exits
    results := match s.daemon.directory with
      | none => s.results
      | some id => setDirectory s.results id ((s.results id).map fun _ => ⟨none, none⟩)
    phase := match s.daemon.directory with
      | none => if stops then .stopped else .polled
      | some id => .removing id stops
    daemon :=
      { s.daemon with
        running := false, directory := none, serial := none, client := false
        timedOut := false, killSent := false, signal := none, deadline := false } }

/-- Note that the job's request is refused because it was not claimed. -/
def refuse (s : Session) : Session :=
  match s.daemon.serial with
  | none => s
  | some n => { s with refused := (n, s.claims.contains n) :: s.refused }

/-- Start a command for a client; `queued` says whether the file of the queue was written. -/
def umDaemonStartJob (s : Session) (file : Bytes) (timeoutMs : ℕ) (queued : Bool) : Session :=
  let id := s.daemon.id + 1
  let d : Daemon :=
    { s.daemon with
      client := true, id := id, directory := some id, timedOut := false, killSent := false
      signal := none, deadline := decide (0 < timeoutMs), claimed := false }
  let s := { s with overlapped := s.overlapped || decide (Outstanding s) }
  if queued then
    { s with
      daemon := { d with running := true, serial := some s.started }
      queue := (id, s.started, file) :: s.queue.filter fun entry => entry.1 ≠ id
      started := s.started + 1 }
  else { s with daemon := { d with client := false, id := 0, serial := none } }

/-- Answer the client that waited longest. -/
def umDaemonAccept (s : Session) (queued leaves : Bool) : Session :=
  let after : Phase := if leaves then .stopped else .polling
  match s.pending with
  | [] => { s with phase := after }
  | w :: pending =>
    let answers := if IsExec w.received then (w.late, umDaemonHandle queued w.received) :: s.answers
      else s.answers
    let s := { s with pending := pending, answers := answers, phase := after }
    match umDaemonHandle true w.received with
    | .queued file timeoutMs => umDaemonStartJob s file timeoutMs queued
    | .bye => { s with phase := .stopped }
    | _ => s

/-! ### The guest -/

/-- One command of the guest's loop. -/
inductive GuestEvent
  | look (id : ℕ)
  | makeDirectory (ok : Bool)
  | claim
  | read (cwdOk : Bool)
  | run
  | finish (status : ℕ)

/-- The guest publishes `done`, if the directory is still there. -/
def publishDone (s : Session) (id status : ℕ) : Session :=
  { s with
    results := setDirectory s.results id
      ((s.results id).map fun d => { d with done := some status })
    guest := .looking }

/-- The marker is right, and there is a command. -/
def Runnable (file : Bytes) : Prop :=
  (umParseRequest file).marker = requestMarker ∧ (umParseRequest file).argv ≠ []

instance (file : Bytes) : Decidable (Runnable file) := inferInstanceAs (Decidable (_ ∧ _))

def guestStep (s : Session) : GuestEvent → Session
  | .look id =>
    if s.guest = .looking ∧ id ∈ s.queue.map Prod.fst then { s with guest := .chosen id } else s
  | .makeDirectory ok =>
    match s.guest with
    | .chosen id =>
      if ok then
        { s with
          results := setDirectory s.results id (some ((s.results id).getD ⟨none, none⟩))
          guest := .made id }
      else { s with guest := .looking }
    | _ => s
  | .claim =>
    match s.guest with
    | .made id =>
      match s.queue.find? (fun entry => entry.1 = id), s.results id with
      | some (_, serial, file), some d =>
        { s with
          queue := s.queue.filter fun entry => entry.1 ≠ id
          results := setDirectory s.results id (some { d with request := some (serial, file) })
          guest := .claimed id serial
          claims := serial :: s.claims }
      | _, _ => { s with guest := .looking }
    | _ => s
  | .read cwdOk =>
    match s.guest with
    | .claimed id _ =>
      match (s.results id).bind ResultDirectory.request with
      | some (serial, file) =>
        if ¬ Runnable file then publishDone s id 125
        else if ¬ cwdOk then publishDone s id 126
        else { s with guest := .parsed id serial }
      | none => publishDone s id 125
    | _ => s
  | .run =>
    match s.guest with
    | .parsed id serial =>
      -- without the directory there is nowhere to put the output, and nothing runs
      if (s.results id).isSome then { s with guest := .running id serial, ran := serial :: s.ran }
      else { s with guest := .looking }
    | _ => s
  | .finish status =>
    match s.guest with
    | .running id _ => publishDone s id status
    | _ => s

/-- What the guest's loop has no part in. -/
structure GuestKept (s t : Session) : Prop where
  daemon : t.daemon = s.daemon
  phase : t.phase = s.phase
  readable : t.readable = s.readable
  started : t.started = s.started
  answers : t.answers = s.answers
  refused : t.refused = s.refused
  overlapped : t.overlapped = s.overlapped

theorem guestStep_kept (s : Session) (e : GuestEvent) : GuestKept s (guestStep s e) := by
  cases e with
  | look id => constructor <;> grind [guestStep]
  | makeDirectory ok => constructor <;> grind [guestStep]
  | claim => constructor <;> grind [guestStep]
  | read cwdOk => constructor <;> grind [guestStep, publishDone]
  | run => constructor <;> grind [guestStep]
  | finish status => constructor <;> grind [guestStep, publishDone]

theorem publishDone_results {s : Session} {id i : ℕ} (h : i ≠ id) (status : ℕ) :
    (publishDone s id status).results i = s.results i := setDirectory_of_ne h _

/-- The guest changes no directory but the one it works on. -/
theorem guestStep_results {s : Session} {i : ℕ} (h : ∀ id ∈ s.guest.directory, i ≠ id)
    (e : GuestEvent) : (guestStep s e).results i = s.results i := by
  cases e with
  | look id =>
    simp only [guestStep]
    split
    · rfl
    · rfl
  | makeDirectory ok =>
    simp only [guestStep]
    split
    · rename_i id hguest
      split
      · exact setDirectory_of_ne (h id (by rw [hguest]; rfl)) _
      · rfl
    · rfl
  | claim =>
    simp only [guestStep]
    split
    · rename_i id hguest
      split
      · exact setDirectory_of_ne (h id (by rw [hguest]; rfl)) _
      · rfl
    · rfl
  | read cwdOk =>
    simp only [guestStep]
    split
    · rename_i id n hguest
      have hne : i ≠ id := h id (by rw [hguest]; rfl)
      split
      · split
        · exact publishDone_results hne 125
        · split
          · exact publishDone_results hne 126
          · rfl
      · exact publishDone_results hne 125
    · rfl
  | run =>
    simp only [guestStep]
    split
    · split
      · rfl
      · rfl
    · rfl
  | finish status =>
    simp only [guestStep]
    split
    · rename_i id n hguest
      exact publishDone_results (h id (by rw [hguest]; rfl)) status
    · rfl

/-! ### The session -/

/-- What happens next.  The daemon's part of a turn takes what its clocks and the
processes it watches say. -/
inductive Event
  | arrive (received : Bytes)
  | turn (input : Input) (hangup : Bool)
  | checkDone
  | checkClock (deadlineOver claimOver graceOver alive : Bool)
  | remove (empty : Bool)
  | accept (queued leaves : Bool)
  | guest (event : GuestEvent)

/-- The beginning of a turn: wait, read from the client, look for the job's directory. -/
def turnStep (s : Session) (input : Input) (hangup : Bool) : Session :=
  let job := s.daemon.running && s.daemon.client
  let d := if job then umDaemonJobInput s.daemon input hangup else s.daemon
  let here := (d.directory.bind s.results).isSome
  { s with
    readable := ! job && ! s.pending.isEmpty
    daemon := { d with claimed := d.claimed || (d.running && here) }
    phase := if d.running then .looked else .polled }

def checkDoneStep (s : Session) : Session :=
  match (s.daemon.directory.bind s.results).bind ResultDirectory.done with
  | some status => umDaemonEndJob s (if 255 < status then 125 else status) false
  | none => { s with phase := .undone }

/-- The clocks of the job, in the order in which they are looked at. -/
def checkClockStep (s : Session) (deadlineOver claimOver graceOver alive : Bool) : Session :=
  let d := s.daemon
  let d := if d.killSent = false ∧ d.deadline ∧ deadlineOver then
    { d with timedOut := true, killSent := true } else d
  let s := { s with daemon := d }
  if d.claimed = false ∧ claimOver then umDaemonEndJob (refuse s) 125 false
  else if d.killSent ∧ d.deadline ∧ graceOver then umDaemonEndJob s 125 false
  else if ¬ alive then umDaemonEndJob s 125 true
  else { s with phase := .polled }

def removeStep (s : Session) (id : ℕ) (stops empty : Bool) : Session :=
  { s with
    results := if empty ∧ s.results id = some ⟨none, none⟩ then setDirectory s.results id none
      else s.results
    phase := if stops then .stopped else .polled }

/-- One event; the daemon takes only the one its phase calls for. -/
def act (s : Session) : Event → Session
  | .arrive received => { s with pending := s.pending ++ [⟨received, false⟩] }
  | .turn input hangup => if s.phase = .polling then turnStep s input hangup else s
  | .checkDone => if s.phase = .looked then checkDoneStep s else s
  | .checkClock deadlineOver claimOver graceOver alive =>
    if s.phase = .undone then checkClockStep s deadlineOver claimOver graceOver alive else s
  | .remove empty =>
    match s.phase with
    | .removing id stops => removeStep s id stops empty
    | _ => s
  | .accept queued leaves =>
    if s.phase = .polled then
      if s.readable then umDaemonAccept s queued leaves
      else { s with phase := if leaves then .stopped else .polling }
    else s
  | .guest event => guestStep s event

/-- A client that waits while a request is outstanding is late. -/
def markLate (s : Session) : Session :=
  { s with pending := s.pending.map fun w => { w with late := w.late || decide (Outstanding s) } }

def step (s : Session) (e : Event) : Session := markLate (act s e)

end NeoProot.UmSession
