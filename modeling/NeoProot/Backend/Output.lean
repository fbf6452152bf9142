import NeoProot.Backend.Session
import NeoProot.Lib.Run
import Mathlib.Logic.Function.Basic

/-!
# The output of a command

The guest makes the files of the two streams one after the other, and the command appends to
them until it is over and the loop publishes `done`.  The daemon opens them when it finds the
first, reads them from where it was, and reads them once more when it finds `done`.

## Main definitions

* `Pump` — a job between the two: the files, what the daemon read of them, and what it sent.
* `Pump.Complete` — what was sent was written in this order, and nothing was left out.
* `Pump.Told` — the steps that leave nothing out.

## Main results

* `output_complete_iff` — a run that comes to `EXIT` is complete exactly when its steps are such.
-/

namespace NeoProot.UmSession
open Run

/-- The streams of a command. -/
inductive Stream
  | out | err
  deriving DecidableEq

variable {k : Stream}

/-- What the client is sent while its command runs. -/
inductive Message
  | frame (k : Stream) (bytes : Bytes)
  | exit (status : ℕ)
  deriving DecidableEq

/-- The part of a message that belongs to a stream. -/
def Message.bytesOf (k : Stream) : Message → Bytes
  | .frame j bytes => if j = k then bytes else []
  | .exit _ => []

/-- What the client received of a stream. -/
def bytesOf (k : Stream) (ms : List Message) : Bytes := ms.flatMap (Message.bytesOf k)

/-- How far the guest is with the job. -/
inductive Work
  | queued | claimed
  /-- The file for `stdout` is there. -/
  | redirecting
  | running
  /-- The command is over, or did not start. -/
  | over
  /-- `done` is published. -/
  | done
  deriving DecidableEq

/-- Where the daemon is in `um_daemon_poll_job`. -/
inductive Turn
  | idle
  /-- It tried to open the file for `stdout`. -/
  | openErr
  | stream (k : Stream)
  | look | check
  /-- It saw `done`, and reads once more. -/
  | drain (k : Stream)
  | exiting
  | clocks
  | ended
  deriving DecidableEq

variable {after : Turn}

/-- A job: the record of the daemon, whether the client is there, the streams that are open and
how much was read of them, the files, how far the guest is and with which status, what was
written before `done`, and what the client received. -/
structure Pump where
  daemon : Daemon
  connected : Bool
  turn : Turn
  opened : Stream → Bool
  offset : Stream → ℕ
  file : Stream → Option Bytes
  guest : Work
  status : ℕ
  due : Stream → Bytes
  received : List Message

variable {t : Pump}

/-- What the guest does with the job. -/
inductive WorkEvent
  | claim
  /-- The request cannot be run. -/
  | reject (status : ℕ)
  | createOut (ok : Bool)
  | createErr (ok : Bool)
  | exit (status : ℕ)
  | publish
  deriving DecidableEq

/-- What can happen to a job. -/
inductive PumpEvent
  | guest (event : WorkEvent)
  /-- The command, or what it left behind, writes. -/
  | write (k : Stream) (bytes : Bytes)
  | leave
  | input (input : Input) (hangup : Bool)
  /-- The daemon's next action. -/
  | work
  | clock (deadlineOver claimOver graceOver alive : Bool)

namespace Pump

/-- A job that was just queued, with a time limit or without. -/
def initial (limited : Bool) : Pump where
  daemon := ⟨true, 1, some 1, some 0, true, false, false, false, none, limited⟩
  connected := true
  turn := .idle
  opened := fun _ => false
  offset := fun _ => 0
  file := fun _ => none
  guest := .queued
  status := 125
  due := fun _ => []
  received := []

/-- What was written to a stream; this stays when the daemon removes the file. -/
def content (s : Pump) (k : Stream) : Bytes := (s.file k).getD []

/-! ### The guest -/

/-- `um_run_one`: the redirections make the files in their order, and without them nothing runs. -/
def guestStep (s : Pump) (e : WorkEvent) : Pump :=
  match e, s.guest with
  | .claim, .queued => { s with guest := .claimed }
  | .reject status, .claimed => { s with guest := .over, status := status }
  | .createOut ok, .claimed =>
    if ok then { s with file := Function.update s.file .out (some []), guest := .redirecting }
    else { s with guest := .over, status := 1 }
  | .createErr ok, .redirecting =>
    if ok then { s with file := Function.update s.file .err (some []), guest := .running }
    else { s with guest := .over, status := 1 }
  | .exit status, .running => { s with guest := .over, status := status }
  | .publish, .over => { s with guest := .done }
  | _, _ => s

/-- The command appends to the file of a stream. -/
def write (s : Pump) (k : Stream) (bytes : Bytes) : Pump :=
  match s.file k, s.guest with
  | some _, .running | some _, .over =>
    { s with
      file := Function.update s.file k (some (s.content k ++ bytes))
      due := Function.update s.due k (s.due k ++ bytes) }
  | some _, .done => { s with file := Function.update s.file k (some (s.content k ++ bytes)) }
  | _, _ => s

/-! ### The daemon -/

/-- Try to open the file of a stream. -/
def openStream (s : Pump) (k : Stream) : Pump :=
  { s with opened := Function.update s.opened k (s.file k).isSome }

/-- What is sent arrives. -/
def Listening (s : Pump) : Prop := s.daemon.client = true ∧ s.connected = true

instance (s : Pump) : Decidable s.Listening := inferInstanceAs (Decidable (_ ∧ _))

/-- One round of `um_daemon_stream`, and what comes after the last. -/
def umDaemonStreamRound (s : Pump) (k : Stream) (after : Turn) : Pump :=
  let chunk := ((s.content k).drop (s.offset k)).take 8192
  if s.opened k = false ∨ chunk = [] then { s with turn := after }
  else
    let s := { s with offset := Function.update s.offset k (s.offset k + chunk.length) }
    if s.Listening then { s with received := s.received ++ [.frame k chunk] }
    else { s with turn := after }

/-- `um_daemon_end_job`. -/
def endJob (s : Pump) (status : ℕ) : Pump :=
  { s with
    opened := fun _ => false
    received := if s.Listening then s.received ++ [.exit (exitStatus s.daemon status)]
      else s.received
    daemon :=
      { s.daemon with
        running := false, directory := none, serial := none, client := false
        timedOut := false, killSent := false, signal := none, deadline := false }
    turn := .ended }

/-- The next action of a pass. -/
def work (s : Pump) : Pump :=
  match s.turn with
  | .idle =>
    if s.opened .out then { s with turn := .stream .out }
    else { s.openStream .out with turn := .openErr }
  -- tried in the same pass only, whether the other is open now or not
  | .openErr => { s.openStream .err with turn := .stream .out }
  | .stream .out => s.umDaemonStreamRound .out (.stream .err)
  | .stream .err => s.umDaemonStreamRound .err .look
  | .look =>
    { s with
      daemon := { s.daemon with claimed := s.daemon.claimed || decide (s.guest ≠ .queued) }
      turn := .check }
  | .check => { s with turn := if s.guest = .done then .drain .out else .clocks }
  | .drain .out => s.umDaemonStreamRound .out (.drain .err)
  | .drain .err => s.umDaemonStreamRound .err .exiting
  | .exiting => s.endJob (if 255 < s.status then 125 else s.status)
  | .clocks | .ended => s

/-- The record of a job once its deadline was looked at. -/
def expire (d : Daemon) (deadlineOver : Bool) : Daemon :=
  if d.killSent = false ∧ d.deadline ∧ deadlineOver then
    { d with timedOut := true, killSent := true }
  else d

/-- The guest did not claim the request, ignores that it is to stop, or is gone. -/
def GivesUp (d : Daemon) (claimOver graceOver alive : Bool) : Prop :=
  d.claimed = false ∧ claimOver = true ∨
    d.killSent = true ∧ d.deadline = true ∧ graceOver = true ∨ alive = false

instance (d : Daemon) (claimOver graceOver alive : Bool) :
    Decidable (GivesUp d claimOver graceOver alive) := inferInstanceAs (Decidable (_ ∨ _))

/-- The clocks of the job, when it is not done. -/
def clocks (s : Pump) (deadlineOver claimOver graceOver alive : Bool) : Pump :=
  let s := { s with daemon := expire s.daemon deadlineOver }
  if GivesUp s.daemon claimOver graceOver alive then s.endJob 125 else { s with turn := .idle }

def step (s : Pump) : PumpEvent → Pump
  | .guest e => s.guestStep e
  | .write k bytes => s.write k bytes
  | .leave => { s with connected := false }
  | .input input hangup =>
    if s.turn = .idle ∧ s.daemon.client then
      { s with daemon := umDaemonJobInput s.daemon input hangup }
    else s
  | .work => s.work
  | .clock deadlineOver claimOver graceOver alive =>
    if s.turn = .clocks then s.clocks deadlineOver claimOver graceOver alive else s

/-! ### What is to be sent -/

/-- What the client received of each stream was written in this order, and before the last
message, its `EXIT`, it received all that was written before `done`. -/
structure Complete (s : Pump) : Prop where
  order : ∀ k, bytesOf k s.received <+: s.content k
  told : ∀ before status after, s.received = before ++ .exit status :: after →
    after = [] ∧ ∀ k, s.due k <+: bytesOf k before

/-- The client was sent its `EXIT`. -/
def Exited (s : Pump) : Prop := ∃ status, .exit status ∈ s.received

/-- When `done` is seen each stream is open or nothing was written to it; the daemon gives up on
what it has read whole; and nothing more is written to a stream that the daemon does not open
any more: `stderr` when it did not exist yet when `stdout` was opened, and all once the daemon
gave up. -/
def Told (s : Pump) : PumpEvent → Prop
  | .work => s.turn = .check → s.guest = .done → ∀ k, s.opened k = true ∨ s.due k = []
  | .clock deadlineOver claimOver graceOver alive =>
    s.turn = .clocks → GivesUp (expire s.daemon deadlineOver) claimOver graceOver alive →
      ∀ k, (s.due k).length ≤ s.offset k
  | .write k bytes =>
    s.file k ≠ none → s.guest = .running ∨ s.guest = .over →
      (s.turn = .ended ∨ k = .err ∧ s.turn ≠ .openErr ∧
        s.opened .out = true ∧ s.opened .err = false) → bytes = []
  | .guest _ | .leave | .input _ _ => True

/-! ### What the client received -/

/-- The client is still there, or was until its `EXIT`. -/
def Served (s : Pump) : Prop := s.Listening ∨ s.Exited

end Pump

@[simp] theorem bytesOf_append (k : Stream) (ms ns : List Message) :
    bytesOf k (ms ++ ns) = bytesOf k ms ++ bytesOf k ns := List.flatMap_append

@[simp] theorem bytesOf_frame (j k : Stream) (bytes : Bytes) :
    bytesOf k [.frame j bytes] = if j = k then bytes else [] := List.flatMap_singleton _ _

@[simp] theorem bytesOf_exit (k : Stream) (status : ℕ) : bytesOf k [.exit status] = [] := rfl

namespace Turn

/-- After `done` was seen. -/
def Finishing : Turn → Prop
  | .drain _ | .exiting => True
  | .idle | .openErr | .stream _ | .look | .check | .clocks | .ended => False

/-- After a stream was read once more. -/
def Past (k : Stream) : Turn → Prop
  | .drain j => k = .out ∧ j = .err
  | .exiting => True
  | .idle | .openErr | .stream _ | .look | .check | .clocks | .ended => False

end Turn

namespace Pump

variable {s : Pump}

/-- The files follow the guest, what was read of them was sent as long as the client was there,
and the daemon ends the job only when it read to the end. -/
structure Sound (s : Pump) : Prop where
  unmade : s.guest = .queued ∨ s.guest = .claimed → ∀ k, s.file k = none
  unmadeErr : s.guest = .redirecting → s.file .err = none
  due_prefix : ∀ k, s.due k <+: s.content k
  due_eq : s.guest ≠ .done → ∀ k, s.due k = s.content k
  opened : ∀ k, s.opened k = true → s.file k ≠ none
  unopened : s.turn ≠ .ended → ∀ k, s.opened k = false → s.offset k = 0
  offset_le : ∀ k, s.offset k ≤ (s.content k).length
  order : ∀ k, bytesOf k s.received <+: s.content k
  sent : s.Served → ∀ k, bytesOf k s.received = (s.content k).take (s.offset k)
  finishing : s.turn.Finishing → s.guest = .done
  past : s.Listening → ∀ k, s.turn.Past k → s.opened k = true → (s.due k).length ≤ s.offset k
  exited : s.Exited → s.turn = .ended
  last : ∀ before status after, s.received = before ++ .exit status :: after → after = []
  ended : s.turn = .ended → s.daemon.client = false

theorem Sound.listening (h : Sound s) (hserved : s.Served) (hturn : s.turn ≠ .ended) :
    s.Listening :=
  hserved.resolve_right fun hexited => hturn (h.exited hexited)

theorem sound_initial (limited : Bool) : Sound (initial limited) where
  unmade _ _ := rfl
  unmadeErr _ := rfl
  due_prefix _ := List.prefix_rfl
  due_eq _ _ := rfl
  opened _ hopen := by cases hopen
  unopened _ _ _ := rfl
  offset_le _ := le_rfl
  order _ := List.prefix_rfl
  sent _ _ := rfl
  finishing hturn := hturn.elim
  past _ _ hturn := hturn.elim
  exited := by
    rintro ⟨status, hmem⟩
    cases hmem
  last before status after heq := by simp [initial] at heq
  ended hturn := by cases hturn

/-! ### The guest keeps a job sound -/

/-- The guest has no part in what the daemon does, and only writing changes what is due. -/
theorem guestStep_same (s : Pump) (e : WorkEvent) :
    (s.guestStep e).daemon = s.daemon ∧ (s.guestStep e).connected = s.connected ∧
      (s.guestStep e).turn = s.turn ∧ (s.guestStep e).opened = s.opened ∧
      (s.guestStep e).offset = s.offset ∧ (s.guestStep e).due = s.due ∧
      (s.guestStep e).received = s.received := by
  simp only [guestStep]
  split
  case h_3 | h_4 =>
    split
    · exact ⟨rfl, rfl, rfl, rfl, rfl, rfl, rfl⟩
    · exact ⟨rfl, rfl, rfl, rfl, rfl, rfl, rfl⟩
  all_goals exact ⟨rfl, rfl, rfl, rfl, rfl, rfl, rfl⟩

theorem write_same (s : Pump) (k : Stream) (bytes : Bytes) :
    (s.write k bytes).daemon = s.daemon ∧ (s.write k bytes).connected = s.connected ∧
      (s.write k bytes).turn = s.turn ∧ (s.write k bytes).opened = s.opened ∧
      (s.write k bytes).offset = s.offset ∧ (s.write k bytes).received = s.received := by
  unfold write
  split
  all_goals exact ⟨rfl, rfl, rfl, rfl, rfl, rfl⟩

/-- What the guest does beside writing changes no content. -/
theorem Sound.of_guest (h : Sound s) {file : Stream → Option Bytes} {guest : Work} (status : ℕ)
    (hcontent : ∀ k, (file k).getD [] = s.content k) (hmade : ∀ k, file k = none → s.file k = none)
    (hunmade : guest = .queued ∨ guest = .claimed → ∀ k, file k = none)
    (hunmadeErr : guest = .redirecting → file .err = none) (hbefore : s.guest ≠ .done) :
    Sound { s with file := file, guest := guest, status := status } where
  unmade := hunmade
  unmadeErr := hunmadeErr
  due_prefix k := by
    rw [content, hcontent]
    exact h.due_prefix k
  due_eq _ k := by
    rw [content, hcontent]
    exact h.due_eq hbefore k
  opened k hopen hnone := h.opened k hopen (hmade k hnone)
  unopened := h.unopened
  offset_le k := by
    rw [content, hcontent]
    exact h.offset_le k
  order k := by
    rw [content, hcontent]
    exact h.order k
  sent hserved k := by
    rw [content, hcontent]
    exact h.sent hserved k
  finishing hturn := absurd (h.finishing hturn) hbefore
  past := h.past
  exited := h.exited
  last := h.last
  ended := h.ended

/-- A file that is made is empty. -/
theorem content_made (hnone : s.file k = none) (j : Stream) :
    (Function.update s.file k (some []) j).getD [] = s.content j := by
  by_cases hj : j = k
  · rw [hj, Function.update_self, content, hnone]
    rfl
  · rw [Function.update_of_ne hj]
    rfl

theorem file_of_made {j : Stream} (hnone : Function.update s.file k (some []) j = none) :
    s.file j = none := by
  by_cases hj : j = k
  · rw [hj, Function.update_self] at hnone
    cases hnone
  · rwa [Function.update_of_ne hj] at hnone

theorem sound_guestStep (h : Sound s) (e : WorkEvent) : Sound (s.guestStep e) := by
  simp only [guestStep]
  split
  · rename_i hguest
    refine h.of_guest s.status (fun _ => rfl) (fun _ hnone => hnone)
      (fun _ => h.unmade (.inl hguest)) nofun ?_
    rw [hguest]
    exact nofun
  · rename_i hguest
    refine h.of_guest _ (fun _ => rfl) (fun _ hnone => hnone) (by simp) nofun ?_
    rw [hguest]
    exact nofun
  · rename_i hguest
    have hnone := h.unmade (.inr hguest)
    have hbefore : s.guest ≠ .done := by
      rw [hguest]
      exact nofun
    split
    · refine h.of_guest s.status (content_made (hnone .out)) (fun _ => file_of_made) (by simp)
        (fun _ => ?_) hbefore
      have hne : Stream.err ≠ .out := nofun
      rw [Function.update_of_ne hne]
      exact hnone .err
    · exact h.of_guest 1 (fun _ => rfl) (fun _ hnone => hnone) (by simp) nofun hbefore
  · rename_i hguest
    have hbefore : s.guest ≠ .done := by
      rw [hguest]
      exact nofun
    split
    · exact h.of_guest s.status (content_made (h.unmadeErr hguest)) (fun _ => file_of_made)
        (by simp) nofun hbefore
    · exact h.of_guest 1 (fun _ => rfl) (fun _ hnone => hnone) (by simp) nofun hbefore
  · rename_i hguest
    refine h.of_guest _ (fun _ => rfl) (fun _ hnone => hnone) (by simp) nofun ?_
    rw [hguest]
    exact nofun
  · rename_i hguest
    refine h.of_guest s.status (fun _ => rfl) (fun _ hnone => hnone) (by simp) nofun ?_
    rw [hguest]
    exact nofun
  · exact h

/-- Appending to a file keeps what was there in front. -/
theorem content_write (bytes : Bytes) (j : Stream) :
    s.content j <+: (Function.update s.file k (some (s.content k ++ bytes)) j).getD [] := by
  by_cases hj : j = k
  · subst hj
    rw [Function.update_self]
    exact List.prefix_append _ bytes
  · rw [Function.update_of_ne hj]
    exact List.prefix_rfl

/-- Appended bytes come behind what was read. -/
theorem Sound.of_write (h : Sound s) (bytes : Bytes) {due : Stream → Bytes}
    (hqueued : s.guest ≠ .queued) (hclaimed : s.guest ≠ .claimed)
    (hredirecting : s.guest ≠ .redirecting)
    (hfront : ∀ j, due j <+: (Function.update s.file k (some (s.content k ++ bytes)) j).getD [])
    (hdue : s.guest ≠ .done → ∀ j, due j =
      (Function.update s.file k (some (s.content k ++ bytes)) j).getD [])
    (hkept : s.guest = .done → due = s.due) :
    Sound
      { s with file := Function.update s.file k (some (s.content k ++ bytes)), due := due } where
  unmade hbefore := hbefore.elim (absurd · hqueued) (absurd · hclaimed)
  unmadeErr hbefore := absurd hbefore hredirecting
  due_prefix := hfront
  due_eq := hdue
  opened j hopen := by
    by_cases hj : j = k
    · subst hj
      simp
    · simp only [Function.update_of_ne hj]
      exact h.opened j hopen
  unopened := h.unopened
  offset_le j := (h.offset_le j).trans (content_write bytes j).length_le
  order j := (h.order j).trans (content_write bytes j)
  sent hserved j := by
    rw [h.sent hserved j]
    obtain ⟨more, hmore⟩ := content_write (s := s) bytes j
    change _ = ((Function.update s.file k (some (s.content k ++ bytes)) j).getD []).take _
    rw [← hmore]
    exact (List.take_append_of_le_length (h.offset_le j)).symm
  finishing := h.finishing
  past hlistening j hpast hopen := by
    have hdone : s.guest = .done := by
      apply h.finishing
      cases hturn : s.turn with
      | drain j => trivial
      | exiting => trivial
      | _ => simp only [hturn, Turn.Past] at hpast
    rw [hkept hdone]
    exact h.past hlistening j hpast hopen
  exited := h.exited
  last := h.last
  ended := h.ended

theorem sound_write (h : Sound s) (k : Stream) (bytes : Bytes) : Sound (s.write k bytes) := by
  have hcounted : s.guest ≠ .done → ∀ j, Function.update s.due k (s.due k ++ bytes) j =
      (Function.update s.file k (some (s.content k ++ bytes)) j).getD [] := by
    intro hbefore j
    by_cases hj : j = k
    · rw [hj, Function.update_self, Function.update_self, h.due_eq hbefore k]
      rfl
    · rw [Function.update_of_ne hj, Function.update_of_ne hj]
      exact h.due_eq hbefore j
  unfold write
  split
  case h_3 hguest =>
    exact h.of_write bytes (by simp [hguest]) (by simp [hguest]) (by simp [hguest])
      (fun j => (h.due_prefix j).trans (content_write bytes j))
      (fun hbefore => absurd hguest hbefore) fun _ => rfl
  case h_4 => exact h
  all_goals
    rename_i hguest
    have hbefore : s.guest ≠ .done := by simp [hguest]
    refine h.of_write bytes (by simp [hguest]) (by simp [hguest]) (by simp [hguest]) (fun j => ?_)
      hcounted fun hdone => absurd hdone hbefore
    rw [hcounted hbefore j]

/-! ### The daemon keeps a job sound -/

theorem Sound.not_exited (h : Sound s) (hturn : s.turn ≠ .ended) : ¬ s.Exited :=
  fun hexited => hturn (h.exited hexited)

/-- The daemon goes on with its pass. -/
theorem Sound.of_turn (h : Sound s) (hturn : s.turn ≠ .ended) (hafter : after ≠ .ended)
    (hfinishing : after.Finishing → s.guest = .done)
    (hpast : s.Listening → ∀ k, after.Past k → s.opened k = true → (s.due k).length ≤ s.offset k) :
    Sound { s with turn := after } :=
  { h with
    unopened := fun _ => h.unopened hturn
    finishing := hfinishing
    past := hpast
    exited := fun hexited => absurd hexited (h.not_exited hturn)
    ended := fun hended => absurd hended hafter }

/-- The daemon opens the file of a stream, if it is there. -/
theorem Sound.of_open (h : Sound s) (k : Stream) (hturn : ¬ s.turn.Finishing) :
    Sound (s.openStream k) :=
  { h with
    opened := by
      intro j hopen hnone
      by_cases hj : j = k
      · subst hj
        simp [openStream, show s.file j = none from hnone] at hopen
      · simp only [openStream, Function.update_of_ne hj] at hopen
        exact h.opened j hopen hnone
    unopened := by
      intro hended j hclosed
      by_cases hj : j = k
      · subst hj
        have hnone : s.file j = none := by simpa [openStream] using hclosed
        have hle := h.offset_le j
        rw [content, hnone] at hle
        exact Nat.le_zero.1 hle
      · simp only [openStream, Function.update_of_ne hj] at hclosed
        exact h.unopened hended j hclosed
    past := by
      intro _ j hpast
      change s.turn.Past j at hpast
      cases hwhere : s.turn with
      | drain i => exact absurd (by rw [hwhere]; trivial) hturn
      | exiting => exact absurd (by rw [hwhere]; trivial) hturn
      | _ => simp only [hwhere, Turn.Past] at hpast }

theorem le_update {offset : Stream → ℕ} (k : Stream) (n : ℕ) (j : Stream) :
    offset j ≤ Function.update offset k (offset k + n) j := by
  by_cases hj : j = k
  · rw [hj, Function.update_self]
    omega
  · rw [Function.update_of_ne hj]

theorem Sound.update_le (h : Sound s) {n : ℕ} (hle : s.offset k + n ≤ (s.content k).length)
    (j : Stream) : Function.update s.offset k (s.offset k + n) j ≤ (s.content j).length := by
  by_cases hj : j = k
  · rwa [hj, Function.update_self]
  · rw [Function.update_of_ne hj]
    exact h.offset_le j

/-- The daemon reads on. -/
theorem Sound.of_read (h : Sound s) (hturn : s.turn ≠ .ended) {chunk : Bytes}
    (hopen : s.opened k = true) (hchunk : chunk <+: (s.content k).drop (s.offset k))
    {received : List Message} (hreceived : s.Listening ∧ received = s.received ++ [.frame k chunk] ∨
      ¬ s.Listening ∧ received = s.received) :
    Sound { s with
      offset := Function.update s.offset k (s.offset k + chunk.length), received := received } := by
  have hle : s.offset k + chunk.length ≤ (s.content k).length := by
    have hlen := hchunk.length_le
    have hoffset := h.offset_le k
    rw [List.length_drop] at hlen
    omega
  have hsent : s.Listening → ∀ j, bytesOf j received =
      (s.content j).take (Function.update s.offset k (s.offset k + chunk.length) j) := by
    intro hlistening j
    obtain ⟨-, rfl⟩ | ⟨hleft, -⟩ := hreceived
    · rw [bytesOf_append, bytesOf_frame, h.sent (.inl hlistening) j]
      by_cases hj : j = k
      · subst hj
        rw [if_pos rfl, Function.update_self, List.take_add, ← List.prefix_iff_eq_take.1 hchunk]
      · rw [if_neg (Ne.symm hj), Function.update_of_ne hj, List.append_nil]
    · exact absurd hlistening hleft
  have hexited : ¬ ∃ status, Message.exit status ∈ received := by
    rintro ⟨status, hmem⟩
    obtain ⟨-, rfl⟩ | ⟨-, rfl⟩ := hreceived
    · exact h.not_exited hturn ⟨status, by simpa using hmem⟩
    · exact h.not_exited hturn ⟨status, hmem⟩
  exact
    { h with
      unopened := by
        intro _ j hclosed
        have hj : j ≠ k := by
          rintro rfl
          rw [show s.opened j = false from hclosed] at hopen
          cases hopen
        simp only [Function.update_of_ne hj]
        exact h.unopened hturn j hclosed
      offset_le := h.update_le hle
      order := by
        intro j
        by_cases hlistening : s.Listening
        · simp only [hsent hlistening j]
          exact List.take_prefix _ _
        · obtain ⟨hhere, -⟩ | ⟨-, rfl⟩ := hreceived
          · exact absurd hhere hlistening
          · exact h.order j
      sent := fun hserved => hsent (hserved.resolve_right hexited)
      past := fun hlistening j hpast hopened =>
        (h.past hlistening j hpast hopened).trans (le_update k _ j)
      exited := fun hexits => absurd hexits hexited
      last := by
        intro before status after heq
        refine absurd ⟨status, ?_⟩ hexited
        change received = before ++ .exit status :: after at heq
        rw [heq]
        simp }

/-- A round of `um_daemon_stream` comes to the end of the file, or reads on. -/
theorem round_cases (s : Pump) (k : Stream) (after : Turn) :
    (s.opened k = true → (s.content k).length ≤ s.offset k) ∧
        s.umDaemonStreamRound k after = { s with turn := after } ∨
      s.opened k = true ∧ ∃ chunk, chunk <+: (s.content k).drop (s.offset k) ∧
        (s.Listening ∧ s.umDaemonStreamRound k after =
            { s with
              offset := Function.update s.offset k (s.offset k + chunk.length)
              received := s.received ++ [.frame k chunk] } ∨
          ¬ s.Listening ∧ s.umDaemonStreamRound k after =
            { s with
              offset := Function.update s.offset k (s.offset k + chunk.length)
              turn := after }) := by
  by_cases hend : s.opened k = false ∨ ((s.content k).drop (s.offset k)).take 8192 = []
  · refine .inl ⟨fun hopen => ?_, by simp only [umDaemonStreamRound, if_pos hend]⟩
    obtain hclosed | hnil := hend
    · rw [hopen] at hclosed
      cases hclosed
    · rw [List.take_eq_nil_iff] at hnil
      exact List.drop_eq_nil_iff.1 (hnil.resolve_left nofun)
  · refine .inr ⟨?_, _, List.take_prefix 8192 _, ?_⟩
    · rw [not_or, Bool.not_eq_false] at hend
      exact hend.1
    · by_cases hlistening : s.Listening
      · refine .inl ⟨hlistening, ?_⟩
        simp only [umDaemonStreamRound, if_neg hend]
        exact if_pos hlistening
      · refine .inr ⟨hlistening, ?_⟩
        simp only [umDaemonStreamRound, if_neg hend]
        exact if_neg hlistening

theorem sound_round (h : Sound s) (k : Stream) (hturn : s.turn ≠ .ended) (hafter : after ≠ .ended)
    (hfinishing : after.Finishing → s.guest = .done)
    (hpast : s.Listening → ∀ j, after.Past j → j ≠ k → s.opened j = true →
      (s.due j).length ≤ s.offset j) : Sound (s.umDaemonStreamRound k after) := by
  obtain ⟨hend, hround⟩ | ⟨hopen, chunk, hchunk, ⟨hlistening, hround⟩ | ⟨hleft, hround⟩⟩ :=
    round_cases s k after
  · rw [hround]
    refine h.of_turn hturn hafter hfinishing fun hlistening j hj hopen => ?_
    by_cases hjk : j = k
    · subst hjk
      exact (h.due_prefix j).length_le.trans (hend hopen)
    · exact hpast hlistening j hj hjk hopen
  · rw [hround]
    exact h.of_read hturn hopen hchunk (.inl ⟨hlistening, rfl⟩)
  · rw [hround]
    have hread := h.of_read hturn hopen hchunk (.inr ⟨hleft, rfl⟩)
    exact hread.of_turn hturn hafter hfinishing fun hlistening => absurd hlistening hleft

/-- With the end of the job the client is sent at most its `EXIT`. -/
theorem sound_endJob (h : Sound s) (hturn : s.turn ≠ .ended) (status : ℕ) :
    Sound (s.endJob status) := by
  have hgone : ¬ (s.endJob status).Listening := fun hlistening => by cases hlistening.1
  have hbytes : ∀ k, bytesOf k (s.endJob status).received = bytesOf k s.received := by
    intro k
    simp only [endJob]
    split
    · rw [bytesOf_append, bytesOf_exit, List.append_nil]
    · rfl
  have hsame : ¬ s.Listening → (s.endJob status).received = s.received := fun hleft => if_neg hleft
  exact
    { h with
      opened := fun _ hopen => by cases hopen
      unopened := fun hended => absurd rfl hended
      order := fun k => (hbytes k).symm ▸ h.order k
      sent := by
        intro hserved k
        have hlistening : s.Listening := by
          by_contra hleft
          refine h.not_exited hturn ?_
          obtain ⟨code, hmem⟩ := hserved.resolve_left hgone
          rw [hsame hleft] at hmem
          exact ⟨code, hmem⟩
        rw [hbytes]
        exact h.sent (.inl hlistening) k
      finishing := fun hfinishing => hfinishing.elim
      past := fun hlistening => absurd hlistening hgone
      exited := fun _ => rfl
      last := by
        intro before code after heq
        by_cases hlistening : s.Listening
        · have hreceived : (s.endJob status).received = s.received ++ [_] := if_pos hlistening
          rw [hreceived] at heq
          obtain rfl | ⟨front, m, rfl⟩ := List.eq_nil_or_concat after
          · rfl
          · -- the message before the last would be an `EXIT` of an earlier end
            rw [List.concat_eq_append, ← List.cons_append, ← List.append_assoc] at heq
            refine absurd ⟨code, ?_⟩ (h.not_exited hturn)
            rw [(List.append_inj' heq rfl).1]
            simp
        · rw [hsame hlistening] at heq
          exact h.last before code after heq
      ended := fun _ => rfl }

theorem sound_work (h : Sound s) : Sound s.work := by
  unfold work
  cases hturn : s.turn with
  | idle =>
    have hrunning : s.turn ≠ .ended := by simp [hturn]
    simp only
    split
    · exact h.of_turn hrunning nofun (fun hfin => hfin.elim) fun _ _ hpast => hpast.elim
    · exact (h.of_open .out (by simp [hturn, Turn.Finishing])).of_turn hrunning nofun
        (fun hfin => hfin.elim) fun _ _ hpast => hpast.elim
  | openErr =>
    have hrunning : s.turn ≠ .ended := by simp [hturn]
    exact (h.of_open .err (by simp [hturn, Turn.Finishing])).of_turn hrunning nofun
      (fun hfin => hfin.elim) fun _ _ hpast => hpast.elim
  | stream k =>
    have hrunning : s.turn ≠ .ended := by simp [hturn]
    cases k with
    | out =>
      exact sound_round h .out hrunning nofun (fun hfin => hfin.elim) fun _ _ hpast => hpast.elim
    | err =>
      exact sound_round h .err hrunning nofun (fun hfin => hfin.elim) fun _ _ hpast => hpast.elim
  | look =>
    have hrunning : s.turn ≠ .ended := by simp [hturn]
    have hnext : Sound { s with turn := .check } :=
      h.of_turn hrunning nofun (fun hfin => hfin.elim) fun _ _ hpast => hpast.elim
    exact { hnext with ended := fun hended => by cases hended }
  | check =>
    have hrunning : s.turn ≠ .ended := by simp [hturn]
    simp only
    split
    · rename_i hdone
      refine h.of_turn hrunning nofun (fun _ => hdone) fun _ j hpast => ?_
      exact absurd hpast.2 nofun
    · exact h.of_turn hrunning nofun (fun hfin => hfin.elim) fun _ _ hpast => hpast.elim
  | drain k =>
    have hrunning : s.turn ≠ .ended := by simp [hturn]
    have hdone : s.guest = .done := h.finishing (by rw [hturn]; trivial)
    cases k with
    | out =>
      refine sound_round h .out hrunning nofun (fun _ => hdone) fun _ j hpast hj => ?_
      exact absurd hpast.1 hj
    | err =>
      refine sound_round h .err hrunning nofun (fun _ => hdone) fun hlistening j _ hj hopen => ?_
      refine h.past hlistening j ?_ hopen
      rw [hturn]
      cases j with
      | out => exact ⟨rfl, rfl⟩
      | err => exact absurd rfl hj
  | exiting => exact sound_endJob h (by simp [hturn]) _
  | clocks => exact h
  | ended => exact h

/-- The record of the daemon changes, and it has no other client than before. -/
theorem Sound.of_daemon (h : Sound s) {d : Daemon}
    (hclient : d.client = true → s.daemon.client = true) : Sound { s with daemon := d } :=
  { h with
    sent := fun hserved =>
      h.sent (hserved.imp_left fun hlistening => ⟨hclient hlistening.1, hlistening.2⟩)
    past := fun hlistening => h.past ⟨hclient hlistening.1, hlistening.2⟩
    ended := fun hended => by
      by_contra hopen
      rw [Bool.not_eq_false] at hopen
      rw [h.ended hended] at hclient
      cases hclient hopen }

theorem expire_client (d : Daemon) (deadlineOver : Bool) :
    (expire d deadlineOver).client = d.client := by
  unfold expire
  split
  · rfl
  · rfl

theorem sound_clocks (h : Sound s) (hturn : s.turn = .clocks)
    (deadlineOver claimOver graceOver alive : Bool) :
    Sound (s.clocks deadlineOver claimOver graceOver alive) := by
  have hrunning : s.turn ≠ .ended := by simp [hturn]
  have hexpired := h.of_daemon (d := expire s.daemon deadlineOver) fun hopen => by
    rwa [expire_client] at hopen
  simp only [clocks]
  split
  · exact sound_endJob hexpired hrunning 125
  · exact hexpired.of_turn hrunning nofun (fun hfin => hfin.elim) fun _ _ hpast => hpast.elim

theorem umDaemonJobInput_client {d : Daemon} {input : Input} {hangup : Bool}
    (h : (umDaemonJobInput d input hangup).client = true) : d.client = true := by
  unfold umDaemonJobInput at h
  cases hangup with
  | true => cases h
  | false =>
    cases input with
    | signal number =>
      simp only [Bool.false_eq_true, if_false] at h
      split at h
      · exact h
      · exact h
    | gone => cases h
    | nothing => exact h
    | ping => exact h

/-- Every event keeps a job sound. -/
theorem step_sound (h : Sound s) (e : PumpEvent) : Sound (s.step e) := by
  cases e with
  | guest e => exact sound_guestStep h e
  | write k bytes => exact sound_write h k bytes
  | leave =>
    exact
      { h with
        sent := fun hserved => h.sent (hserved.imp_left fun hlistening => by cases hlistening.2)
        past := fun hlistening => by cases hlistening.2 }
  | input input hangup =>
    simp only [step]
    split
    · exact h.of_daemon umDaemonJobInput_client
    · exact h
  | work => exact sound_work h
  | clock deadlineOver claimOver graceOver alive =>
    simp only [step]
    split
    · rename_i hturn
      exact sound_clocks h hturn deadlineOver claimOver graceOver alive
    · exact h

/-! ### A client that stays was there all the time -/

theorem served_of (hserved : t.Served) (hlistening : t.Listening → s.Listening)
    (hexit : ∀ status, .exit status ∈ t.received → s.Listening ∨ .exit status ∈ s.received) :
    s.Served := by
  obtain hhere | ⟨status, hmem⟩ := hserved
  · exact .inl (hlistening hhere)
  · exact (hexit status hmem).imp_right fun hmem => ⟨status, hmem⟩

/-- What leaves the messages alone. -/
theorem served_of_eq (hserved : t.Served) (hlistening : t.Listening → s.Listening)
    (hreceived : t.received = s.received) : s.Served := by
  refine served_of hserved hlistening fun status hmem => .inr ?_
  rwa [hreceived] at hmem

theorem served_of_round (hserved : (s.umDaemonStreamRound k after).Served) : s.Served := by
  obtain ⟨-, hround⟩ | ⟨-, chunk, -, ⟨hlistening, -⟩ | ⟨-, hround⟩⟩ := round_cases s k after
  · rw [hround] at hserved
    exact served_of_eq hserved id rfl
  · exact .inl hlistening
  · rw [hround] at hserved
    exact served_of_eq hserved id rfl

theorem served_of_endJob {status : ℕ} (hserved : (s.endJob status).Served) : s.Served := by
  refine served_of hserved (fun hlistening => by cases hlistening.1) fun code hmem => ?_
  by_cases hhere : s.Listening
  · exact .inl hhere
  · refine .inr ?_
    rwa [show (s.endJob status).received = s.received from if_neg hhere] at hmem

theorem step_served (e : PumpEvent) (hserved : (s.step e).Served) : s.Served := by
  cases e with
  | guest e =>
    change (s.guestStep e).Served at hserved
    obtain ⟨hdaemon, hconnected, -, -, -, -, hreceived⟩ := guestStep_same s e
    refine served_of_eq hserved (fun hlistening => ?_) hreceived
    rwa [Listening, hdaemon, hconnected] at hlistening
  | write k bytes =>
    change (s.write k bytes).Served at hserved
    obtain ⟨hdaemon, hconnected, -, -, -, hreceived⟩ := write_same s k bytes
    refine served_of_eq hserved (fun hlistening => ?_) hreceived
    rwa [Listening, hdaemon, hconnected] at hlistening
  | leave => exact served_of_eq hserved (fun hlistening => by cases hlistening.2) rfl
  | input input hangup =>
    simp only [step] at hserved
    split at hserved
    · exact served_of_eq hserved
        (fun hlistening => ⟨umDaemonJobInput_client hlistening.1, hlistening.2⟩) rfl
    · exact hserved
  | work =>
    change s.work.Served at hserved
    unfold work at hserved
    split at hserved
    · split at hserved
      · exact served_of_eq hserved id rfl
      · exact served_of_eq hserved id rfl
    · exact served_of_eq hserved id rfl
    · exact served_of_round hserved
    · exact served_of_round hserved
    · exact served_of_eq hserved id rfl
    · exact served_of_eq hserved id rfl
    · exact served_of_round hserved
    · exact served_of_round hserved
    · exact served_of_endJob hserved
    · exact hserved
    · exact hserved
  | clock deadlineOver claimOver graceOver alive =>
    have hclient : ∀ {t : Pump}, t.daemon.client = (expire s.daemon deadlineOver).client →
        t.connected = s.connected → t.Listening → s.Listening := by
      intro t hd hc hlistening
      rwa [Listening, hd, hc, expire_client] at hlistening
    simp only [step] at hserved
    split at hserved
    · simp only [clocks] at hserved
      split at hserved
      · exact served_of_eq (served_of_endJob hserved) (hclient rfl rfl) rfl
      · exact served_of_eq hserved (hclient rfl rfl) rfl
    · exact hserved

/-! ### What is lost -/

/-- The daemon does not read the stream any more. -/
def NeverRead (s : Pump) (k : Stream) : Prop :=
  match s.turn with
  | .ended => True
  | .drain _ | .exiting => s.opened k = false
  | .openErr => False
  | .idle | .stream _ | .look | .check | .clocks =>
    k = .err ∧ s.opened .out = true ∧ s.opened .err = false

/-- Of what it does not read any more it has read all that was written before `done`. -/
def Safe (s : Pump) : Prop := ∀ k, s.NeverRead k → (s.due k).length ≤ s.offset k

theorem closed_of_neverRead (hnever : s.NeverRead k) (hturn : s.turn ≠ .ended) :
    s.opened k = false := by
  unfold NeverRead at hnever
  split at hnever
  · rename_i hended
    exact absurd hended hturn
  · exact hnever
  · exact hnever
  · exact hnever.elim
  all_goals
    obtain ⟨rfl, -, hclosed⟩ := hnever
    exact hclosed

/-- What stays as it was where the daemon does not read is as safe as before. -/
theorem safe_congr (hnever : ∀ k, t.NeverRead k ↔ s.NeverRead k) (hdue : t.due = s.due)
    (hoffset : ∀ k, s.NeverRead k → t.offset k = s.offset k) : t.Safe ↔ s.Safe := by
  refine forall_congr' fun k => ?_
  rw [hnever k, hdue]
  exact imp_congr_right fun h => by rw [hoffset k h]

theorem safe_round (hturn : s.turn ≠ .ended) (k : Stream)
    (hafter : ∀ j, { s with turn := after }.NeverRead j ↔ s.NeverRead j) :
    (s.umDaemonStreamRound k after).Safe ↔ s.Safe := by
  obtain ⟨-, hround⟩ | ⟨hopen, chunk, -, hread⟩ := round_cases s k after
  · rw [hround]
    exact safe_congr hafter rfl fun _ _ => rfl
  · have hoffset : ∀ j, s.NeverRead j →
        Function.update s.offset k (s.offset k + chunk.length) j = s.offset j := by
      intro j hnever
      apply Function.update_of_ne
      rintro rfl
      rw [closed_of_neverRead hnever hturn] at hopen
      cases hopen
    obtain ⟨-, hround⟩ | ⟨-, hround⟩ := hread
    · rw [hround]
      exact safe_congr (fun _ => Iff.rfl) rfl hoffset
    · rw [hround]
      exact safe_congr hafter rfl hoffset

/-- A job that ends is safe when it was read to the end. -/
theorem safe_endJob (status : ℕ) : (s.endJob status).Safe ↔ ∀ k, (s.due k).length ≤ s.offset k :=
  forall_congr' fun _ => ⟨fun h => h trivial, fun h _ => h⟩

theorem safe_work (h : Sound s) (hserved : s.Served) : s.work.Safe ↔ s.Safe ∧ s.Told .work := by
  have hother : s.turn ≠ .check → (s.Told .work ↔ True) := fun hturn =>
    iff_of_true (fun hcheck => absurd hcheck hturn) trivial
  unfold work
  cases hturn : s.turn with
  | idle =>
    rw [hother (by simp [hturn]), and_true]
    simp only
    split
    · exact safe_congr (by simp [NeverRead, hturn]) rfl fun _ _ => rfl
    · rename_i hclosed
      exact iff_of_true (fun k hnever => hnever.elim)
        fun k hnever => absurd (by simpa [NeverRead, hturn] using hnever) (by simp [hclosed])
  | openErr =>
    rw [hother (by simp [hturn]), and_true]
    refine iff_of_true (fun k hnever => ?_) fun k hnever => by simp [NeverRead, hturn] at hnever
    obtain ⟨rfl, -, hclosed⟩ := hnever
    have hnone : s.file .err = none := by simpa [openStream] using hclosed
    have hdue := (h.due_prefix .err).length_le
    rw [content, hnone] at hdue
    exact hdue.trans (Nat.zero_le _)
  | stream k =>
    rw [hother (by simp [hturn]), and_true]
    cases k with
    | out => exact safe_round (by simp [hturn]) .out (by simp [NeverRead, hturn])
    | err => exact safe_round (by simp [hturn]) .err (by simp [NeverRead, hturn])
  | look =>
    rw [hother (by simp [hturn]), and_true]
    exact safe_congr (by simp [NeverRead, hturn]) rfl fun _ _ => rfl
  | check =>
    have hrunning : s.turn ≠ .ended := by simp [hturn]
    have hnone : ∀ k, s.opened k = false → ((s.due k).length ≤ s.offset k ↔ s.due k = []) := by
      intro k hclosed
      rw [h.unopened hrunning k hclosed, Nat.le_zero, List.length_eq_zero_iff]
    simp only
    split
    · rename_i hdone
      have hall : { s with turn := .drain .out }.Safe ↔ s.Told .work := by
        constructor
        · intro hsafe _ _ k
          cases hopen : s.opened k with
          | true => exact .inl rfl
          | false => exact .inr ((hnone k hopen).1 (hsafe k hopen))
        · intro htold k hclosed
          exact (hnone k hclosed).2 ((htold hturn hdone k).resolve_left (by
            rw [show s.opened k = false from hclosed]
            exact nofun))
      rw [hall, iff_and_self]
      intro htold k hnever
      have hclosed := closed_of_neverRead hnever hrunning
      exact (hnone k hclosed).2 ((htold hturn hdone k).resolve_left (by simp [hclosed]))
    · rename_i hbefore
      have htold : s.Told .work := fun _ hdone => absurd hdone hbefore
      rw [and_iff_left htold]
      exact safe_congr (by simp [NeverRead, hturn]) rfl fun _ _ => rfl
  | drain k =>
    rw [hother (by simp [hturn]), and_true]
    cases k with
    | out => exact safe_round (by simp [hturn]) .out (by simp [NeverRead, hturn])
    | err => exact safe_round (by simp [hturn]) .err (by simp [NeverRead, hturn])
  | exiting =>
    have hrunning : s.turn ≠ .ended := by simp [hturn]
    rw [hother (by simp [hturn]), and_true, safe_endJob]
    constructor
    · intro hread k _
      exact hread k
    · intro hsafe k
      cases hopen : s.opened k with
      | true => exact h.past (h.listening hserved hrunning) k (by rw [hturn]; trivial) hopen
      | false => exact hsafe k (by simpa only [NeverRead, hturn] using hopen)
  | clocks => rw [hother (by simp [hturn]), and_true]
  | ended => rw [hother (by simp [hturn]), and_true]

theorem safe_clocks (hturn : s.turn = .clocks) (deadlineOver claimOver graceOver alive : Bool) :
    (s.clocks deadlineOver claimOver graceOver alive).Safe ↔
      s.Safe ∧ s.Told (.clock deadlineOver claimOver graceOver alive) := by
  simp only [clocks]
  split
  · rename_i hgives
    rw [safe_endJob]
    constructor
    · exact fun hread => ⟨fun k _ => hread k, fun _ _ => hread⟩
    · exact fun h => h.2 hturn hgives
  · rename_i hgoes
    have htold : s.Told (.clock deadlineOver claimOver graceOver alive) :=
      fun _ hgives => absurd hgives hgoes
    rw [and_iff_left htold]
    exact safe_congr (by simp [NeverRead, hturn]) rfl fun _ _ => rfl

/-- Before `done` nothing may be written where the daemon does not read. -/
theorem neverRead_iff (h : Sound s) (hbefore : s.guest ≠ .done) (k : Stream) :
    s.NeverRead k ↔ s.turn = .ended ∨ k = .err ∧ s.turn ≠ .openErr ∧
      s.opened .out = true ∧ s.opened .err = false := by
  have hfinishing : ¬ s.turn.Finishing := fun hfin => hbefore (h.finishing hfin)
  cases hturn : s.turn with
  | drain j => exact absurd (by rw [hturn]; trivial) hfinishing
  | exiting => exact absurd (by rw [hturn]; trivial) hfinishing
  | _ => simp [NeverRead, hturn]

theorem safe_write (h : Sound s) (k : Stream) (bytes : Bytes) :
    (s.write k bytes).Safe ↔ s.Safe ∧ s.Told (.write k bytes) := by
  obtain ⟨-, -, hturn, hopened, hoffset, -⟩ := write_same s k bytes
  have hnever : ∀ j, (s.write k bytes).NeverRead j ↔ s.NeverRead j := by
    intro j
    simp only [NeverRead, hturn, hopened]
  -- nothing that counts is written
  have hidle : (s.write k bytes).due = s.due → s.Told (.write k bytes) →
      ((s.write k bytes).Safe ↔ s.Safe ∧ s.Told (.write k bytes)) := by
    intro hdue htold
    rw [and_iff_left htold]
    exact safe_congr hnever hdue fun j _ => by rw [hoffset]
  by_cases hfile : s.file k = none
  · refine hidle ?_ fun hmade => absurd hfile hmade
    simp only [write, hfile]
  · by_cases hcounts : s.guest = .running ∨ s.guest = .over
    · obtain ⟨old, hold⟩ := Option.ne_none_iff_exists'.1 hfile
      have hbefore : s.guest ≠ .done := by
        intro hdone
        rw [hdone] at hcounts
        simp at hcounts
      have hdue : (s.write k bytes).due = Function.update s.due k (s.due k ++ bytes) := by
        obtain hguest | hguest := hcounts
        · simp only [write, hold, hguest]
        · simp only [write, hold, hguest]
      have htold : s.Told (.write k bytes) ↔ (s.NeverRead k → bytes = []) := by
        rw [neverRead_iff h hbefore]
        exact ⟨fun htold => htold hfile hcounts, fun htold _ _ => htold⟩
      have hle : s.offset k ≤ (s.due k).length := by
        rw [h.due_eq hbefore]
        exact h.offset_le k
      rw [htold]
      constructor
      · intro hsafe
        have hk : s.NeverRead k → (s.due k).length + bytes.length ≤ s.offset k := by
          intro hnot
          have hread := hsafe k ((hnever k).2 hnot)
          rwa [hdue, hoffset, Function.update_self, List.length_append] at hread
        refine ⟨fun j hnot => ?_, fun hnot => ?_⟩
        · by_cases hj : j = k
          · subst hj
            have hread := hk hnot
            omega
          · have hread := hsafe j ((hnever j).2 hnot)
            rwa [hdue, hoffset, Function.update_of_ne hj] at hread
        · apply List.eq_nil_of_length_eq_zero
          have hread := hk hnot
          omega
      · rintro ⟨hsafe, hnil⟩ j hnot
        rw [hnever] at hnot
        rw [hdue, hoffset]
        by_cases hj : j = k
        · subst hj
          rw [Function.update_self, hnil hnot, List.append_nil]
          exact hsafe j hnot
        · rw [Function.update_of_ne hj]
          exact hsafe j hnot
    · refine hidle ?_ fun _ hcounts' => absurd hcounts' hcounts
      unfold write
      split
      · rename_i hguest
        exact absurd (.inl hguest) hcounts
      · rename_i hguest
        exact absurd (.inr hguest) hcounts
      · rfl
      · rfl

/-- An event leads to a job in which nothing is lost from such a job, when it loses nothing. -/
theorem step_safe_iff (h : Sound s) (e : PumpEvent) (hserved : (s.step e).Served) :
    (s.step e).Safe ↔ s.Safe ∧ s.Told e := by
  cases e with
  | guest e =>
    obtain ⟨-, -, hturn, hopened, hoffset, hdue, -⟩ := guestStep_same s e
    rw [and_iff_left (by trivial)]
    refine safe_congr (t := s.guestStep e) (fun k => ?_) hdue fun k _ => by rw [hoffset]
    simp only [NeverRead, hturn, hopened]
  | write k bytes => exact safe_write h k bytes
  | leave => exact (and_iff_left trivial).symm
  | input input hangup =>
    rw [and_iff_left (by trivial)]
    simp only [step]
    split
    · exact safe_congr (fun _ => Iff.rfl) rfl fun _ _ => rfl
    · exact Iff.rfl
  | work => exact safe_work h (step_served .work hserved)
  | clock deadlineOver claimOver graceOver alive =>
    simp only [step]
    split
    · rename_i hturn
      exact safe_clocks hturn deadlineOver claimOver graceOver alive
    · rename_i hturn
      rw [and_iff_left]
      exact fun hclocks => absurd hclocks hturn

/-- At the end of a job the client has all exactly when nothing was lost. -/
theorem complete_iff (h : Sound s) : s.Complete ↔ (s.Exited → s.Safe) := by
  constructor
  · rintro hcomplete ⟨status, hmem⟩ k -
    obtain ⟨before, after, hsplit⟩ := List.append_of_mem hmem
    obtain ⟨hnil, hdue⟩ := hcomplete.told before status after hsplit
    have hsent := h.sent (.inr ⟨status, hmem⟩) k
    rw [hsplit, hnil, bytesOf_append, bytesOf_exit, List.append_nil] at hsent
    have hlen := (hdue k).length_le
    rw [hsent, List.length_take] at hlen
    omega
  · refine fun hsafe => ⟨h.order, fun before status after hsplit => ?_⟩
    have hexited : s.Exited := ⟨status, by rw [hsplit]; simp⟩
    have hnil := h.last before status after hsplit
    refine ⟨hnil, fun k => ?_⟩
    have hread : (s.due k).length ≤ s.offset k := by
      apply hsafe hexited k
      simp only [NeverRead, h.exited hexited]
    have hsent := h.sent (.inr hexited) k
    rw [hsplit, hnil, bytesOf_append, bytesOf_exit, List.append_nil] at hsent
    rw [hsent]
    exact List.prefix_take_iff.2 ⟨h.due_prefix k, hread⟩

end Pump

/-! ### Runs -/

/-- However the guest, the command and the daemon take turns, the client receives what was
written in order, and it receives all of it before its `EXIT` exactly when nothing is written
to a stream that the daemon does not open any more, and the job does not end with a stream
that the daemon did not open or did not read whole. -/
theorem output_complete_iff (limited : Bool) (es : List PumpEvent) :
    (es.foldl Pump.step (Pump.initial limited)).Complete ↔
      ((es.foldl Pump.step (Pump.initial limited)).Exited →
        AllSteps Pump.step Pump.Told (Pump.initial limited) es) := by
  have hinitial := Pump.sound_initial limited
  have hall : ∀ s ∈ states Pump.step (Pump.initial limited) es, s.Sound :=
    invariant (A := fun _ => True) (fun _ e _ h => Pump.step_sound h e) hinitial fun _ _ => trivial
  have hsound := hall _ (foldl_mem_states Pump.step _ es)
  have hsafe : (Pump.initial limited).Safe := fun _ _ => le_rfl
  rw [Pump.complete_iff hsound]
  refine imp_congr_right fun hexited => ?_
  have hrun := foldl_iff_allSteps (I := Pump.Sound) (P := Pump.Safe) (Q := Pump.Served)
    (C := Pump.Told) (fun _ e h => Pump.step_sound h e)
    (fun _ e _ hserved => Pump.step_served e hserved)
    (fun _ e h hserved => Pump.step_safe_iff h e hserved) hinitial (.inr hexited)
  rw [hrun.2, and_iff_right hsafe]

/-- The daemon opens the file for `stdout` before the one for `stderr` is there. -/
theorem stderr_lost :
    ¬ ∀ (limited : Bool) (es : List PumpEvent),
        (es.foldl Pump.step (Pump.initial limited)).Complete := by
  intro h
  have hlast := h false
    ([.guest .claim, .guest (.createOut true), .work, .work, .guest (.createErr true),
      .write .err [33], .guest (.exit 1), .guest .publish] ++ List.replicate 7 .work)
  have htold := (hlast.told [] 1 [] (by decide +kernel)).2 .err
  revert htold
  decide +kernel

end NeoProot.UmSession
