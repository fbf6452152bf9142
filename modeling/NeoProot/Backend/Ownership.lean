import NeoProot.Backend.StateDir
import NeoProot.Lib.Run

/-!
# Who owns the state directory of a session

The lock decides which daemon has the directory, and the pid file tells the others.  The daemon
that has it finds things as it left them only as long as nobody works on the directory without
having the lock: `session start` does, before it asks for the lock and after its daemon may have
got it, and so does a daemon that has removed the lock and goes on removing.

## Main definitions

* `Claims` — what a daemon takes for granted where it is.
* `State.Consistent` — every daemon finds its lock, pid, socket and `ready` where it left them.
* `State.Undisturbing` — a step that takes nothing from another daemon.
* `State.consistent_iff_undisturbed` — the runs in which every daemon finds them.
-/

namespace NeoProot.UmSession.Ownership
open Run

variable {pr pr' : Process} {i j : ℕ} {o : Option Process} {f : Dir → Dir} {place : Daemon}

/-- What a process takes for granted: the inodes that it locked, and opened for its pid, are
still those of the directory, the pid file has its pid, and the socket and `ready` are its
own. -/
structure Claims where
  lock : Option ℕ
  pid : Option ℕ
  named : Bool
  bound : Bool
  announced : Bool
  deriving DecidableEq, Repr

/-- Nothing. -/
def Claims.nothing : Claims := ⟨none, none, false, false, false⟩

/-- A daemon has the directory from when it gets the lock until it removes that.  The pid file is
its own from when it wrote it until it removes it, the rest while it serves. -/
def Daemon.claims : Daemon → Claims
  | .openLog | .prepare _ | .openLock | .flock _ => .nothing
  | .openPid i => ⟨some i, none, false, false, false⟩
  | .writePid i j => ⟨some i, some j, false, false, false⟩
  | .boot i | .unlinkSocket i | .bind i => ⟨some i, none, true, false, false⟩
  | .serve i ready => ⟨some i, none, true, true, ready⟩
  | .unlinkServed i | .owned i => ⟨some i, none, true, false, false⟩
  | .remove i .ctlSock | .remove i .pid => ⟨some i, none, true, false, false⟩
  | .remove i .lock => ⟨some i, none, false, false, false⟩
  | .remove _ _ | .rmdir _ | .close _ => .nothing

def Process.claims : Process → Claims
  | .start _ => .nothing
  | .daemon place => place.claims

/-- The lock that a process has. -/
def Process.lock : Process → Option ℕ
  | .start (.prepare (.close i)) | .daemon (.prepare (.close i)) => some i
  | .start _ | .daemon .openLog | .daemon (.prepare _) | .daemon .openLock
  | .daemon (.flock _) => none
  | .daemon (.openPid i) | .daemon (.writePid i _) | .daemon (.boot i)
  | .daemon (.unlinkSocket i) | .daemon (.bind i) | .daemon (.serve i _)
  | .daemon (.unlinkServed i) | .daemon (.owned i) | .daemon (.remove i _)
  | .daemon (.rmdir i) | .daemon (.close i) => some i

namespace State

/-- The inode of `lock`. -/
def lockFile (s : State) : Option ℕ := s.dir.bind (·.lock)

/-- The inode of `pid`. -/
def pidFile (s : State) : Option ℕ := s.dir.bind (·.pid)

/-- Who bound `ctl.sock`. -/
def ctlSock (s : State) : Option ℕ := s.dir.bind (·.ctlSock)

/-- Who wrote `ready`. -/
def ready (s : State) : Option ℕ := s.dir.bind (·.ready)

/-- A process finds what it takes for granted. -/
structure Grants (s : State) (p : ℕ) (c : Claims) : Prop where
  lock : ∀ i, c.lock = some i → s.lockFile = some i
  pid : ∀ j, c.pid = some j → s.pidFile = some j
  named : c.named = true → s.pidRead = some p
  bound : c.bound = true → s.ctlSock = some p
  announced : c.announced = true → s.ready = some p

/-- Every process that has a lock holds it. -/
def Locked (s : State) : Prop :=
  ∀ p pr i, s.procs p = some pr → pr.lock = some i → s.locks i = .held p

/-- **Session ownership.**  Every daemon finds its lock, its pid, its socket and its `ready`, and
none was made to quit by its watchdog. -/
structure Consistent (s : State) : Prop where
  grants : ∀ p pr, s.procs p = some pr → s.Grants p pr.claims
  kept : s.evicted = []

end State

theorem Process.lock_of_claims (h : pr.claims.lock = some i) : pr.lock = some i := by
  cases pr with
  | start place => exact absurd h (by simp [Process.claims, Claims.nothing])
  | daemon place =>
    cases place with
    | openLog | prepare | openLock | flock | rmdir | close =>
      exact absurd h (by simp [Process.claims, Daemon.claims, Claims.nothing])
    | openPid | writePid | boot | unlinkSocket | bind | serve | unlinkServed | owned => exact h
    | remove j name =>
      cases name with
      | ctlSock | pid | lock => exact h
      | owner | log | metaFile | ready | stop =>
        exact absurd h (by simp [Process.claims, Daemon.claims, Claims.nothing])

theorem Process.claims_eq_nothing (h : pr.claims.lock = none) : pr.claims = .nothing := by
  cases pr with
  | start place => rfl
  | daemon place =>
    cases place with
    | openLog | prepare | openLock | flock | rmdir | close => rfl
    | openPid | writePid | boot | unlinkSocket | bind | serve | unlinkServed | owned =>
      exact absurd h (by simp [Process.claims, Daemon.claims])
    | remove j name =>
      cases name with
      | ctlSock | pid | lock => exact absurd h (by simp [Process.claims, Daemon.claims])
      | owner | log | metaFile | ready | stop => rfl

namespace State

variable {s s' : State} {p : ℕ}

theorem Grants.nothing (s : State) (p : ℕ) : s.Grants p .nothing :=
  ⟨by simp [Claims.nothing], by simp [Claims.nothing], by simp [Claims.nothing],
    by simp [Claims.nothing], by simp [Claims.nothing]⟩

/-- What the directory tells is still there. -/
structure Keeps (s s' : State) : Prop where
  lock : ∀ i, s.lockFile = some i → s'.lockFile = some i
  pid : ∀ j, s.pidFile = some j → s'.pidFile = some j
  named : ∀ p, s.pidRead = some p → s'.pidRead = some p
  bound : ∀ p, s.ctlSock = some p → s'.ctlSock = some p
  announced : ∀ p, s.ready = some p → s'.ready = some p

theorem Keeps.refl (s : State) : s.Keeps s :=
  ⟨fun _ => id, fun _ => id, fun _ => id, fun _ => id, fun _ => id⟩

theorem Keeps.of_eq (hdir : s'.dir = s.dir) (hlines : s'.lines = s.lines) : s.Keeps s' := by
  have hpid : s'.pidRead = s.pidRead := by rw [pidRead, pidRead, hdir, hlines]
  constructor
  · rw [lockFile, lockFile, hdir]
    exact fun _ => id
  · rw [pidFile, pidFile, hdir]
    exact fun _ => id
  · rw [hpid]
    exact fun _ => id
  · rw [ctlSock, ctlSock, hdir]
    exact fun _ => id
  · rw [ready, ready, hdir]
    exact fun _ => id

theorem Grants.keep {c : Claims} (h : s.Grants p c) (hk : s.Keeps s') : s'.Grants p c :=
  ⟨fun i hi => hk.lock i (h.lock i hi), fun j hj => hk.pid j (h.pid j hj),
    fun hc => hk.named p (h.named hc), fun hc => hk.bound p (h.bound hc),
    fun hc => hk.announced p (h.announced hc)⟩

/-- The lock makes it one. -/
theorem Consistent.owner_unique (h : s.Consistent) (hl : s.Locked) {q : ℕ} {qr : Process}
    (hp : s.procs p = some pr) (hq : s.procs q = some qr) (hi : pr.claims.lock = some i)
    (hj : qr.claims.lock = some j) : p = q := by
  have hpi := (h.grants p pr hp).lock i hi
  have hqj := (h.grants q qr hq).lock j hj
  have hsame : i = j := Option.some.inj (hpi.symm.trans hqj)
  have hheldp := hl p pr i hp (Process.lock_of_claims hi)
  have hheldq := hl q qr j hq (Process.lock_of_claims hj)
  rw [hsame, hheldq] at hheldp
  exact (Lock.held.inj hheldp).symm

/-- One process has changed, or has ended. -/
structure Moves (s s' : State) (p : ℕ) (o : Option Process) : Prop where
  procs : s'.procs = Function.update s.procs p o
  evicted : s'.evicted = s.evicted

theorem Consistent.moves_iff (h : s.Consistent) (hm : s.Moves s' p o) :
    s'.Consistent ↔
      (∀ pr, o = some pr → s'.Grants p pr.claims) ∧
        ∀ q qr, q ≠ p → s.procs q = some qr → s'.Grants q qr.claims := by
  constructor
  · intro h'
    constructor
    · intro pr hpr
      exact h'.grants p pr (by rw [hm.procs, Function.update_self, hpr])
    · intro q qr hq hqr
      exact h'.grants q qr (by rw [hm.procs, Function.update_of_ne hq, hqr])
  · rintro ⟨hself, hothers⟩
    refine ⟨fun q qr hqr => ?_, by rw [hm.evicted, h.kept]⟩
    rw [hm.procs] at hqr
    by_cases hq : q = p
    · subst hq
      rw [Function.update_self] at hqr
      exact hself qr hqr
    · rw [Function.update_of_ne hq] at hqr
      exact hothers q qr hq hqr

/-- A step that takes nothing out of the directory. -/
theorem Consistent.keeps_iff (h : s.Consistent) (hm : s.Moves s' p o) (hk : s.Keeps s') :
    s'.Consistent ↔ ∀ pr, o = some pr → s'.Grants p pr.claims := by
  rw [h.moves_iff hm]
  apply and_iff_left
  exact fun q qr _ hqr => (h.grants q qr hqr).keep hk

/-- A step of the daemon that has the directory. -/
theorem Consistent.owner_iff (h : s.Consistent) (hl : s.Locked) (hm : s.Moves s' p o)
    (hp : s.procs p = some pr) (hi : pr.claims.lock = some i) :
    s'.Consistent ↔ ∀ pr, o = some pr → s'.Grants p pr.claims := by
  rw [h.moves_iff hm]
  apply and_iff_left
  intro q qr hq hqr
  have hnone : qr.claims.lock = none := by
    cases hj : qr.claims.lock with
    | none => rfl
    | some j => exact absurd (h.owner_unique hl hqr hp hj hi) hq
  rw [Process.claims_eq_nothing hnone]
  exact .nothing s' q

/-- A system call, which changes no process. -/
structure Calls (s s' : State) : Prop where
  procs : s'.procs = s.procs
  evicted : s'.evicted = s.evicted

theorem Calls.refl (s : State) : s.Calls s := ⟨rfl, rfl⟩

theorem Calls.moves (hc : s.Calls s') (p : ℕ) (pr : Process) :
    s.Moves (s'.setProc p pr) p (some pr) :=
  ⟨by rw [setProc, hc.procs], hc.evicted⟩

/-- A process goes on after a call that takes nothing out of the directory. -/
theorem Consistent.setProc_iff (h : s.Consistent) (hc : s.Calls s') (hk : s.Keeps s') (p : ℕ)
    (pr : Process) : (s'.setProc p pr).Consistent ↔ s'.Grants p pr.claims := by
  rw [h.keeps_iff (hc.moves p pr) ⟨hk.1, hk.2, hk.3, hk.4, hk.5⟩]
  simp only [Option.some.injEq, forall_eq']
  exact ⟨fun hg => ⟨hg.1, hg.2, hg.3, hg.4, hg.5⟩, fun hg => ⟨hg.1, hg.2, hg.3, hg.4, hg.5⟩⟩

/-- It takes nothing for granted afterwards. -/
theorem Consistent.setProc_nothing (h : s.Consistent) (hc : s.Calls s') (hk : s.Keeps s') (p : ℕ)
    (hpr : pr.claims = .nothing) : (s'.setProc p pr).Consistent := by
  rw [h.setProc_iff hc hk, hpr]
  exact .nothing s' p

/-- The daemon that has the directory goes on after a call. -/
theorem Consistent.setProc_owner_iff (h : s.Consistent) (hl : s.Locked) (hc : s.Calls s')
    (hp : s.procs p = some pr) (hi : pr.claims.lock = some i) (pr' : Process) :
    (s'.setProc p pr').Consistent ↔ s'.Grants p pr'.claims := by
  rw [h.owner_iff hl (hc.moves p pr') hp hi]
  simp only [Option.some.injEq, forall_eq']
  exact ⟨fun hg => ⟨hg.1, hg.2, hg.3, hg.4, hg.5⟩, fun hg => ⟨hg.1, hg.2, hg.3, hg.4, hg.5⟩⟩

theorem Consistent.endProc (h : s.Consistent) (p : ℕ) (orphan : Bool) :
    (s.endProc p orphan).Consistent := by
  have hmoves : s.Moves (s.endProc p orphan) p none := ⟨rfl, rfl⟩
  rw [h.keeps_iff hmoves (.of_eq rfl rfl)]
  exact fun pr hpr => absurd hpr (by simp)

/-! ### Calls -/

theorem calls_changeDir (s : State) (f : Dir → Dir) : s.Calls (s.changeDir f) := ⟨rfl, rfl⟩

theorem calls_setLock (s : State) (i : ℕ) (l : Lock) : s.Calls (s.setLock i l) := ⟨rfl, rfl⟩

theorem calls_pidWrite (s : State) (j line : ℕ) : s.Calls (s.pidWrite j line) := ⟨rfl, rfl⟩

theorem calls_rmdir (s : State) : s.Calls s.rmdir := by
  rw [rmdir]
  split
  · exact ⟨rfl, rfl⟩
  · exact .refl s

theorem keeps_setLock (s : State) (i : ℕ) (l : Lock) : s.Keeps (s.setLock i l) := .of_eq rfl rfl

theorem bind_changeDir {α : Type} (s : State) (f : Dir → Dir) (g : Dir → Option α) :
    (s.changeDir f).dir.bind g = s.dir.bind fun d => g (f d) := by
  rw [changeDir]
  cases s.dir <;> rfl

theorem lockFile_changeDir (s : State) (hlock : ∀ d, (f d).lock = d.lock) :
    (s.changeDir f).lockFile = s.lockFile := by
  simp only [lockFile, bind_changeDir, hlock]

theorem pidRead_changeDir (s : State) (hpid : ∀ d, (f d).pid = d.pid) :
    (s.changeDir f).pidRead = s.pidRead := by
  simp only [pidRead, bind_changeDir, hpid]
  rfl

theorem grants_lock : s.Grants p ⟨some i, none, false, false, false⟩ ↔ s.lockFile = some i := by
  constructor
  · exact fun h => h.lock i rfl
  · exact fun hlock => ⟨fun j hj => hlock.trans hj, by simp, by simp, by simp, by simp⟩

theorem grants_named :
    s.Grants p ⟨some i, none, true, false, false⟩ ↔ s.lockFile = some i ∧ s.pidRead = some p := by
  constructor
  · exact fun h => ⟨h.lock i rfl, h.named rfl⟩
  · rintro ⟨hlock, hnamed⟩
    exact ⟨fun j hj => hlock.trans hj, by simp, fun _ => hnamed, by simp, by simp⟩

/-- A daemon that removes its socket keeps the lock and the pid. -/
theorem grants_unlinkSocket (hlock : s.lockFile = some i) (hnamed : s.pidRead = some p) :
    (s.changeDir (·.unlink .ctlSock)).Grants p ⟨some i, none, true, false, false⟩ := by
  apply grants_named.2
  constructor
  · exact (s.lockFile_changeDir (f := (·.unlink .ctlSock)) fun _ => rfl).trans hlock
  · exact (s.pidRead_changeDir (f := (·.unlink .ctlSock)) fun _ => rfl).trans hnamed

theorem ctlSock_setCtlSock (hlock : s.lockFile = some i) (p : ℕ) :
    (s.changeDir (.setCtlSock p)).ctlSock = some p := by
  obtain ⟨d, hd, -⟩ := Option.bind_eq_some_iff.1 hlock
  rw [ctlSock, bind_changeDir, hd]
  rfl

theorem ready_setReady (hlock : s.lockFile = some i) (p : ℕ) :
    (s.changeDir (.setReady p)).ready = some p := by
  obtain ⟨d, hd, -⟩ := Option.bind_eq_some_iff.1 hlock
  rw [ready, bind_changeDir, hd]
  rfl

/-- Only files that nobody relies on change. -/
theorem keeps_changeDir (s : State) (hlock : ∀ d, (f d).lock = d.lock)
    (hpid : ∀ d, (f d).pid = d.pid) (hsock : ∀ d, (f d).ctlSock = d.ctlSock)
    (hready : ∀ d, (f d).ready = d.ready) : s.Keeps (s.changeDir f) := by
  constructor
  · simp only [lockFile, bind_changeDir, hlock]
    exact fun _ => id
  · simp only [pidFile, bind_changeDir, hpid]
    exact fun _ => id
  · simp only [pidRead, bind_changeDir, hpid]
    exact fun _ => id
  · simp only [ctlSock, bind_changeDir, hsock]
    exact fun _ => id
  · simp only [ready, bind_changeDir, hready]
    exact fun _ => id

/-- A directory with nothing in it is as good as none. -/
theorem keeps_of_nothing (hdir : s.dir = none ∨ s.dir = some Dir.empty) (s' : State) :
    s.Keeps s' := by
  have hnone : s.lockFile = none ∧ s.pidFile = none ∧ s.pidRead = none ∧ s.ctlSock = none ∧
      s.ready = none := by
    rw [lockFile, pidFile, pidRead, ctlSock, ready]
    obtain hdir | hdir := hdir
    · rw [hdir]
      exact ⟨rfl, rfl, rfl, rfl, rfl⟩
    · rw [hdir]
      exact ⟨rfl, rfl, rfl, rfl, rfl⟩
  obtain ⟨hlock, hpid, hread, hsock, hready⟩ := hnone
  constructor
  · simp [hlock]
  · simp [hpid]
  · simp [hread]
  · simp [hsock]
  · simp [hready]

theorem keeps_rmdir (s : State) : s.Keeps s.rmdir := by
  rw [rmdir]
  split
  · rename_i hdir
    exact keeps_of_nothing (.inr hdir) _
  · exact .refl s

theorem openLock_spec (h : s.openLock = some (s', i)) :
    s.Calls s' ∧ s.Keeps s' ∧ s'.locks = s.locks := by
  rw [openLock] at h
  cases hdir : s.dir with
  | none =>
    rw [hdir] at h
    exact absurd h (by simp)
  | some d =>
    rw [hdir] at h
    cases hlock : d.lock with
    | some j =>
      simp only [hlock, Option.some.injEq, Prod.mk.injEq] at h
      rw [← h.1]
      exact ⟨.refl s, .refl s, rfl⟩
    | none =>
      simp only [hlock, Option.some.injEq, Prod.mk.injEq] at h
      obtain ⟨rfl, -⟩ := h
      refine ⟨⟨rfl, rfl⟩, ?_, rfl⟩
      constructor
      · intro j hj
        rw [lockFile, hdir, Option.bind_some, hlock] at hj
        exact absurd hj (by simp)
      · simp [pidFile, hdir]
      · simp [pidRead, hdir]
      · simp [ctlSock, hdir]
      · simp [ready, hdir]

/-- The pid file is open, and empty. -/
structure OpenedPid (s s' : State) (j : ℕ) : Prop where
  calls : s.Calls s'
  locks : s'.locks = s.locks
  lockFile : s'.lockFile = s.lockFile
  pidFile : ∀ k, s.pidFile = some k → s'.pidFile = some k
  opened : s'.pidFile = some j
  empty : s'.pidRead = none
  ctlSock : s'.ctlSock = s.ctlSock
  ready : s'.ready = s.ready

theorem openPid_spec (h : s.openPid = some (s', j)) : s.OpenedPid s' j := by
  rw [openPid] at h
  cases hdir : s.dir with
  | none =>
    rw [hdir] at h
    exact absurd h (by simp)
  | some d =>
    rw [hdir] at h
    cases hpid : d.pid with
    | some k =>
      simp only [hpid, Option.some.injEq, Prod.mk.injEq] at h
      obtain ⟨rfl, rfl⟩ := h
      constructor
      · exact ⟨rfl, rfl⟩
      · rfl
      · simp [State.lockFile, hdir]
      · simp [State.pidFile, hdir]
      · simp [State.pidFile, hpid]
      · simp [State.pidRead, hpid]
      · simp [State.ctlSock, hdir]
      · simp [State.ready, hdir]
    | none =>
      simp only [hpid, Option.some.injEq, Prod.mk.injEq] at h
      obtain ⟨rfl, rfl⟩ := h
      constructor
      · exact ⟨rfl, rfl⟩
      · rfl
      · simp [State.lockFile, hdir]
      · simp [State.pidFile, hdir, hpid]
      · simp [State.pidFile]
      · simp [State.pidRead]
      · simp [State.ctlSock, hdir]
      · simp [State.ready, hdir]

/-! ### Steps that disturb nobody -/

/-- A daemon serves, and its guest is ready. -/
def Announced (s : State) (q : ℕ) : Prop := ∃ i, s.procs q = some (.daemon (.serve i true))

/-- A daemon has written its pid, and not yet removed it. -/
def Named (s : State) (q : ℕ) : Prop :=
  ∃ pr, s.procs q = some pr ∧ pr.claims.named = true

/-- What a process must not disturb with its next system call: `session start` removes `ready`
when no ready guest is served, empties the pid file before a daemon has written it, and writes
over no other daemon's pid; a daemon locks the lock that is in the directory, and removes `ready`
when no ready guest is served. -/
def QuietAct (s : State) : Process → Prop
  | .start .unlinkReady | .daemon (.remove _ .ready) => ∀ q, ¬ s.Announced q
  | .start (.openPid _) => ∀ q, ¬ s.Named q
  | .start (.writePid child j) => s.pidFile = some j → ∀ q, s.Named q → q = child
  | .daemon (.flock i) => s.locks i = .free → s.lockFile = some i
  | _ => True

/-- The same for a step. -/
def Undisturbing (s : State) : Op → Prop
  | .act p => ∀ pr, s.procs p = some pr → s.QuietAct pr
  | _ => True

theorem claims_announced (h : pr.claims.announced = true) : ∃ i, pr = .daemon (.serve i true) := by
  cases pr with
  | start place => exact absurd h (by simp [Process.claims, Claims.nothing])
  | daemon place =>
    cases place with
    | serve i ready =>
      cases ready with
      | true => exact ⟨i, rfl⟩
      | false => exact absurd h (by simp [Process.claims, Daemon.claims])
    | remove i name =>
      cases name <;> exact absurd h (by simp [Process.claims, Daemon.claims, Claims.nothing])
    | openLog | prepare | openLock | flock | rmdir | close =>
      exact absurd h (by simp [Process.claims, Daemon.claims, Claims.nothing])
    | openPid | writePid | boot | unlinkSocket | bind | unlinkServed | owned =>
      exact absurd h (by simp [Process.claims, Daemon.claims])

/-- `ready` is removed: nobody else must rely on it. -/
theorem unlinkReady_iff (h : s.Consistent) (hp : s.procs p = some pr) (hpr : pr.claims = .nothing)
    (hpr' : pr'.claims = .nothing) :
    ((s.changeDir (·.unlink .ready)).setProc p pr').Consistent ↔ ∀ q, ¬ s.Announced q := by
  have hready : (s.changeDir (·.unlink .ready)).ready = none := by
    rw [ready, bind_changeDir]
    cases s.dir <;> rfl
  rw [h.moves_iff ((s.calls_changeDir _).moves p pr')]
  simp only [Option.some.injEq, forall_eq', hpr']
  constructor
  · rintro ⟨-, hothers⟩ q ⟨i, hq⟩
    have hne : q ≠ p := by
      rintro rfl
      rw [hp, Option.some.injEq] at hq
      subst hq
      exact absurd hpr (by simp [Process.claims, Daemon.claims, Claims.nothing])
    have hfound := (hothers q _ hne hq).announced rfl
    rw [ready, setProc] at hfound
    change (s.changeDir (·.unlink .ready)).ready = some q at hfound
    rw [hready] at hfound
    exact absurd hfound (by simp)
  · intro hnone
    refine ⟨.nothing _ p, fun q qr hne hqr => ?_⟩
    have hold := h.grants q qr hqr
    constructor
    · intro i hi
      rw [← hold.lock i hi]
      exact bind_changeDir ..
    · intro j hj
      rw [← hold.pid j hj]
      exact bind_changeDir ..
    · intro hc
      rw [← hold.named hc]
      exact congrArg (Option.bind · s.lines) (bind_changeDir ..)
    · intro hc
      rw [← hold.bound hc]
      exact bind_changeDir ..
    · intro hc
      obtain ⟨i, rfl⟩ := claims_announced hc
      exact absurd ⟨i, hqr⟩ (hnone q)

/-- The pid file is emptied by a start. -/
theorem openPid_iff (h : s.Consistent) (hp : s.procs p = some pr) (hpr : pr.claims = .nothing)
    (hpr' : pr'.claims = .nothing) (ho : s.OpenedPid s' j) :
    (s'.setProc p pr').Consistent ↔ ∀ q, ¬ s.Named q := by
  rw [h.moves_iff (ho.calls.moves p pr')]
  simp only [Option.some.injEq, forall_eq', hpr']
  constructor
  · rintro ⟨-, hothers⟩ q ⟨qr, hq, hnamed⟩
    have hne : q ≠ p := by
      rintro rfl
      rw [hp, Option.some.injEq] at hq
      subst hq
      exact absurd hnamed (by simp [hpr, Claims.nothing])
    have hfound : s'.pidRead = some q := (hothers q qr hne hq).named hnamed
    rw [ho.empty] at hfound
    exact absurd hfound (by simp)
  · intro hnone
    refine ⟨.nothing _ p, fun q qr hne hqr => ?_⟩
    have hold := h.grants q qr hqr
    constructor
    · exact fun i hi => ho.lockFile.trans (hold.lock i hi)
    · exact fun k hk => ho.pidFile k (hold.pid k hk)
    · exact fun hc => absurd ⟨qr, hqr, hc⟩ (hnone q)
    · exact fun hc => ho.ctlSock.trans (hold.bound hc)
    · exact fun hc => ho.ready.trans (hold.announced hc)

theorem pidRead_pidWrite (s : State) (j line : ℕ) :
    (s.pidWrite j line).pidRead = if s.pidFile = some j then some line else s.pidRead := by
  rw [pidRead, pidWrite, pidFile, pidRead]
  cases s.dir.bind (·.pid) with
  | none => simp
  | some k =>
    by_cases hk : k = j
    · simp [hk]
    · simp [hk]

/-- A line is written to a pid file by a start. -/
theorem pidWrite_iff (h : s.Consistent) {line : ℕ} (hp : s.procs p = some pr)
    (hpr : pr.claims = .nothing) (hpr' : pr'.claims = .nothing) :
    ((s.pidWrite j line).setProc p pr').Consistent ↔
      (s.pidFile = some j → ∀ q, s.Named q → q = line) := by
  rw [h.moves_iff ((s.calls_pidWrite j line).moves p pr')]
  simp only [Option.some.injEq, forall_eq', hpr']
  constructor
  · rintro ⟨-, hothers⟩ hfile q ⟨qr, hq, hnamed⟩
    have hne : q ≠ p := by
      rintro rfl
      rw [hp, Option.some.injEq] at hq
      subst hq
      exact absurd hnamed (by simp [hpr, Claims.nothing])
    have hfound : (s.pidWrite j line).pidRead = some q := (hothers q qr hne hq).named hnamed
    rw [pidRead_pidWrite, if_pos hfile, Option.some.injEq] at hfound
    exact hfound.symm
  · intro hline
    refine ⟨.nothing _ p, fun q qr hne hqr => ?_⟩
    have hold := h.grants q qr hqr
    refine ⟨hold.lock, hold.pid, fun hc => ?_, hold.bound, hold.announced⟩
    change (s.pidWrite j line).pidRead = some q
    rw [pidRead_pidWrite]
    split
    · rename_i hfile
      rw [hline hfile q ⟨qr, hqr, hc⟩]
    · exact hold.named hc

theorem Consistent.prepareState (h : s.Consistent) (p : ℕ) {within : Prepare → Process}
    {done : Process} (hwithin : ∀ place, (within place).claims = .nothing)
    (hdone : done.claims = .nothing) (place : Prepare) :
    (s.prepareState p within done place).Consistent := by
  cases place with
  | look => exact h.setProc_nothing (.refl s) (.refl s) p (hwithin _)
  | owned =>
    rw [State.prepareState]
    split
    · exact h.setProc_nothing (.refl s) (.refl s) p (hwithin _)
    · exact h.endProc p false
  | openLock =>
    rw [State.prepareState]
    split
    · exact h.endProc p false
    · rename_i s' i hopen
      obtain ⟨hcalls, hkeeps, -⟩ := openLock_spec hopen
      exact h.setProc_nothing hcalls hkeeps p (hwithin _)
  | flock i =>
    rw [State.prepareState]
    split
    · exact h.setProc_nothing (s.calls_setLock i _) (s.keeps_setLock i _) p (hwithin _)
    · exact h.endProc p false
  | close i => exact h.setProc_nothing (s.calls_setLock i _) (s.keeps_setLock i _) p hdone
  | mkdir =>
    rw [State.prepareState]
    split
    · exact h.endProc p false
    · rename_i hdir
      have hnone : s.dir = none := by simpa using hdir
      have hcalls : s.Calls { s with dir := some .empty } := ⟨rfl, rfl⟩
      exact h.setProc_nothing hcalls (keeps_of_nothing (.inl hnone) _) p (hwithin _)
  | writeOwner =>
    rw [State.prepareState]
    split
    · have hkeeps : s.Keeps (s.changeDir fun d => { d with owner := true }) :=
        s.keeps_changeDir (fun _ => rfl) (fun _ => rfl) (fun _ => rfl) (fun _ => rfl)
      exact h.setProc_nothing (s.calls_changeDir _) hkeeps p hdone
    · exact h.endProc p false

theorem commandStart_iff (h : s.Consistent) {place : Start} (hp : s.procs p = some (.start place)) :
    (s.commandStart p place).Consistent ↔ s.QuietAct (.start place) := by
  cases place with
  | unlinkReady => exact unlinkReady_iff h hp rfl rfl
  | prepare place =>
    have hdone : (Process.start .fork).claims = .nothing := rfl
    have hwithin : ∀ place, (Process.start (.prepare place)).claims = .nothing := fun _ => rfl
    exact iff_of_true (h.prepareState p hwithin hdone place) trivial
  | fork | wait => exact iff_of_true h trivial
  | openPid child =>
    rw [commandStart]
    cases hopen : s.openPid with
    | some r => exact openPid_iff h hp rfl rfl (openPid_spec hopen)
    | none =>
      refine iff_of_true (h.endProc p false) (fun q ⟨qr, hq, hnamed⟩ => ?_)
      -- without a directory there is no pid to be found
      have hfound := (h.grants q qr hq).named hnamed
      have hdir : s.dir = none := by
        rw [State.openPid] at hopen
        cases hd : s.dir with
        | none => rfl
        | some d =>
          rw [hd] at hopen
          cases hpid : d.pid with
          | none => simp [hpid] at hopen
          | some j => simp [hpid] at hopen
      rw [pidRead, hdir] at hfound
      exact absurd hfound (by simp)
  | writePid child j => exact pidWrite_iff h hp rfl rfl

/-- The steps of the daemon that has the directory. -/
theorem Consistent.daemonMain_owner (h : s.Consistent) (hl : s.Locked)
    (hp : s.procs p = some (.daemon place)) (hi : place.claims.lock = some i) :
    (s.daemonMain p place).Consistent := by
  have hgrants : s.Grants p place.claims := h.grants p _ hp
  have hset : ∀ {s'}, s.Calls s' → ∀ pr', s'.Grants p (Process.claims pr') →
      (s'.setProc p pr').Consistent :=
    fun hc pr' => (h.setProc_owner_iff hl hc hp hi pr').2
  cases place with
  | openLog | prepare | openLock | flock | rmdir | close =>
    exact absurd hi (by simp [Daemon.claims, Claims.nothing])
  | openPid k =>
    rw [daemonMain]
    cases hopen : s.openPid with
    | none => exact h.endProc p false
    | some r =>
      have ho := openPid_spec hopen
      refine hset ho.calls _ ⟨?_, ?_, by simp [Process.claims, Daemon.claims],
        by simp [Process.claims, Daemon.claims], by simp [Process.claims, Daemon.claims]⟩
      · exact fun l hl => ho.lockFile.trans (hgrants.lock l hl)
      · intro l hl
        rw [ho.opened]
        exact hl
  | writePid k j =>
    refine hset (s.calls_pidWrite j p) _ ⟨hgrants.lock, by simp [Process.claims, Daemon.claims], ?_,
      by simp [Process.claims, Daemon.claims], by simp [Process.claims, Daemon.claims]⟩
    intro _
    rw [pidRead_pidWrite, if_pos (hgrants.pid j rfl)]
  | boot | serve => exact h
  | unlinkSocket k =>
    exact hset (s.calls_changeDir _) _
      (grants_unlinkSocket (hgrants.lock k rfl) (hgrants.named rfl))
  | bind k =>
    have hnamed := grants_named.2 ⟨hgrants.lock k rfl, hgrants.named rfl⟩
    rw [daemonMain]
    split
    · refine hset (s.calls_changeDir _) _ ⟨?_, by simp [Process.claims, Daemon.claims], ?_, ?_,
        by simp [Process.claims, Daemon.claims]⟩
      · intro j hj
        exact (s.lockFile_changeDir (f := Dir.setCtlSock p) fun _ => rfl).trans (hgrants.lock j hj)
      · intro hn
        exact (s.pidRead_changeDir (f := Dir.setCtlSock p) fun _ => rfl).trans (hgrants.named hn)
      · intro _
        exact ctlSock_setCtlSock (hgrants.lock k rfl) p
    · exact hset (.refl s) _ hnamed
  | unlinkServed k =>
    exact hset (s.calls_changeDir _) _
      (grants_unlinkSocket (hgrants.lock k rfl) (hgrants.named rfl))
  | owned k =>
    refine hset (.refl s) _ ?_
    split
    · exact grants_named.2 ⟨hgrants.lock k rfl, hgrants.named rfl⟩
    · exact .nothing s p
  | remove k name =>
    cases name with
    | ctlSock =>
      exact hset (s.calls_changeDir _) _
        (grants_unlinkSocket (hgrants.lock k rfl) (hgrants.named rfl))
    | pid =>
      refine hset (s.calls_changeDir _) _ (grants_lock.2 ?_)
      exact (s.lockFile_changeDir (f := (·.unlink .pid)) fun _ => rfl).trans (hgrants.lock k rfl)
    | lock => exact hset (s.calls_changeDir _) _ (.nothing _ p)
    | owner | log | metaFile | ready | stop =>
      exact absurd hi (by simp [Daemon.claims, Claims.nothing])

theorem daemonMain_iff (h : s.Consistent) (hl : s.Locked) (hp : s.procs p = some (.daemon place)) :
    (s.daemonMain p place).Consistent ↔ s.QuietAct (.daemon place) := by
  have howner : ∀ i, place.claims.lock = some i → (s.daemonMain p place).Consistent :=
    fun i hi => h.daemonMain_owner hl hp hi
  cases place with
  | openPid i | writePid i _ | boot i | unlinkSocket i | bind i | serve i _ | unlinkServed i
  | owned i => exact iff_of_true (howner i rfl) trivial
  | openLog =>
    have hkeeps : s.Keeps (s.changeDir fun d => { d with log := true }) :=
      s.keeps_changeDir (fun _ => rfl) (fun _ => rfl) (fun _ => rfl) (fun _ => rfl)
    exact iff_of_true (h.setProc_nothing (s.calls_changeDir _) hkeeps p rfl) trivial
  | prepare place =>
    have hdone : (Process.daemon .openLock).claims = .nothing := rfl
    have hwithin : ∀ place, (Process.daemon (.prepare place)).claims = .nothing := fun _ => rfl
    exact iff_of_true (h.prepareState p hwithin hdone place) trivial
  | openLock =>
    refine iff_of_true ?_ trivial
    rw [daemonMain]
    split
    · exact h.endProc p false
    · rename_i s' i hopen
      obtain ⟨hcalls, hkeeps, -⟩ := openLock_spec hopen
      exact h.setProc_nothing hcalls hkeeps p rfl
  | flock i =>
    rw [daemonMain, QuietAct]
    split
    · rename_i hfree
      rw [h.setProc_iff (s.calls_setLock i _) (s.keeps_setLock i _), imp_iff_right hfree]
      exact grants_lock
    · rename_i hheld
      exact iff_of_true (h.endProc p false) (fun hfree => absurd hfree hheld)
  | remove i name =>
    cases name with
    | ctlSock | pid | lock => exact iff_of_true (howner i rfl) trivial
    | ready => exact unlinkReady_iff h hp rfl rfl
    | owner | log | metaFile | stop =>
      refine iff_of_true (h.setProc_nothing (s.calls_changeDir _) ?_ p rfl) trivial
      exact s.keeps_changeDir (fun _ => rfl) (fun _ => rfl) (fun _ => rfl) (fun _ => rfl)
  | rmdir i => exact iff_of_true (h.setProc_nothing s.calls_rmdir s.keeps_rmdir p rfl) trivial
  | close i => exact iff_of_true (h.endProc p false) trivial

/-- A daemon that has the directory ends its loop. -/
theorem Consistent.setProc_named (h : s.Consistent) (hl : s.Locked) {place' : Daemon}
    (hp : s.procs p = some (.daemon place)) (hi : place.claims.lock = some i)
    (hnamed : place.claims.named = true)
    (hplace : place'.claims = ⟨some i, none, true, false, false⟩) :
    (s.setProc p (.daemon place')).Consistent := by
  have hgrants := h.grants p _ hp
  rw [h.setProc_owner_iff hl (.refl s) hp hi, Process.claims, hplace]
  exact grants_named.2 ⟨hgrants.lock i hi, hgrants.named hnamed⟩

/-- **One step.** -/
theorem consistent_step (hl : s.Locked) (h : s.Consistent) (o : Op) :
    (s.step o).Consistent ↔ s.Undisturbing o := by
  cases o with
  | act p =>
    rw [step, Undisturbing]
    cases hp : s.procs p with
    | none => exact iff_of_true h (fun pr hpr => absurd hpr (by simp))
    | some pr =>
      simp only [Option.some.injEq, forall_eq']
      cases pr with
      | start place => exact commandStart_iff h hp
      | daemon place => exact daemonMain_iff h hl hp
  | start p =>
    refine iff_of_true ?_ trivial
    rw [step]
    split
    · exact h.setProc_nothing (.refl s) (.refl s) p rfl
    · exact h
  | fork p child =>
    refine iff_of_true ?_ trivial
    rw [step]
    split
    · have hclaims : (Process.start (.openPid child)).claims = .nothing := rfl
      have hparent := h.setProc_nothing (.refl s) (.refl s) p hclaims
      exact hparent.setProc_nothing (.refl _) (.refl _) child rfl
    · exact h
  | writeMeta p =>
    refine iff_of_true ?_ trivial
    rw [step]
    split
    · have hkeeps : s.Keeps (s.changeDir fun d => { d with metaFile := true }) :=
        s.keeps_changeDir (fun _ => rfl) (fun _ => rfl) (fun _ => rfl) (fun _ => rfl)
      exact ⟨fun q qr hq => (h.grants q qr hq).keep hkeeps, h.kept⟩
    · exact h
  | booted p =>
    refine iff_of_true ?_ trivial
    rw [step]
    split
    · rename_i i hp
      split
      · exact h.setProc_named hl hp rfl rfl rfl
      · exact h
    · exact h
  | giveUp p =>
    refine iff_of_true ?_ trivial
    rw [step]
    split
    · rename_i i hp
      exact h.setProc_named hl hp rfl rfl rfl
    · rename_i i hp
      exact h.setProc_named hl hp rfl rfl rfl
    · rename_i i hp
      exact h.setProc_named hl hp rfl rfl rfl
    · exact h
  | announce p =>
    refine iff_of_true ?_ trivial
    rw [step]
    split
    · rename_i i hp
      have hgrants := h.grants p _ hp
      rw [h.setProc_owner_iff hl (s.calls_changeDir _) hp rfl]
      refine ⟨fun j hj => ?_, by simp [Process.claims, Daemon.claims], fun hn => ?_, fun hb => ?_,
        fun _ => ready_setReady (hgrants.lock i rfl) p⟩
      · exact (s.lockFile_changeDir (f := Dir.setReady p) fun _ => rfl).trans (hgrants.lock j hj)
      · exact (s.pidRead_changeDir (f := Dir.setReady p) fun _ => rfl).trans (hgrants.named hn)
      · rw [ctlSock, bind_changeDir]
        exact hgrants.bound hb
    · exact h
  | watchdog p =>
    refine iff_of_true ?_ trivial
    rw [step]
    split
    · rename_i i hp
      rw [watchdog, if_pos ((h.grants p _ hp).named rfl)]
      exact h
    · exact h
  | leave p =>
    refine iff_of_true ?_ trivial
    rw [step]
    split
    · rename_i i hp
      exact h.setProc_named hl hp rfl rfl rfl
    · exact h
  | stop =>
    refine iff_of_true ?_ trivial
    rw [step]
    split
    · exact h
    · split
      · rename_i i hp
        exact h.setProc_named hl hp rfl rfl rfl
      · exact h
  | die p orphan => exact iff_of_true (h.endProc p orphan) trivial
  | orphanGone i =>
    refine iff_of_true ?_ trivial
    rw [step]
    split
    · exact ⟨fun q qr hq => (h.grants q qr hq).keep (s.keeps_setLock i _), h.kept⟩
    · exact h

/-! ### Locks -/

theorem Locked.moves (hl : s.Locked) (hprocs : s'.procs = Function.update s.procs p o)
    (hothers : ∀ q i, q ≠ p → s.locks i = .held q → s'.locks i = .held q)
    (hself : ∀ pr i, o = some pr → pr.lock = some i → s'.locks i = .held p) : s'.Locked := by
  intro q qr i hqr hi
  rw [hprocs] at hqr
  by_cases hq : q = p
  · subst hq
    rw [Function.update_self] at hqr
    exact hself qr i hqr hi
  · rw [Function.update_of_ne hq] at hqr
    exact hothers q i hq (hl q qr i hqr hi)

theorem Locked.endProc (hl : s.Locked) (p : ℕ) (orphan : Bool) : (s.endProc p orphan).Locked := by
  refine hl.moves (o := none) rfl (fun q i hq hheld => ?_) (fun pr i hpr => absurd hpr (by simp))
  have hother : s.locks i ≠ .held p := by
    rw [hheld]
    exact fun heq => hq (Lock.held.inj heq)
  rw [State.endProc]
  exact (if_neg hother).trans hheld

/-- A process goes on with the lock that it had, or with none. -/
theorem Locked.setProc (hl : s.Locked) (hc : s.Calls s') (hlocks : s'.locks = s.locks)
    (pr' : Process) (hp : s.procs p = some pr) (hpr : ∀ i, pr'.lock = some i → pr.lock = some i) :
    (s'.setProc p pr').Locked := by
  refine hl.moves (hc.moves p pr').procs (fun q i _ hheld => ?_) (fun qr i hqr hi => ?_)
  · rw [State.setProc, hlocks]
    exact hheld
  · rw [Option.some.injEq] at hqr
    subst hqr
    rw [State.setProc, hlocks]
    exact hl p pr i hp (hpr i hi)

/-- A process that has no lock gets one. -/
theorem Locked.acquire (hl : s.Locked) (hfree : s.locks i = .free) (p : ℕ)
    (hpr : pr.lock = some i) : ((s.setLock i (.held p)).setProc p pr).Locked := by
  refine hl.moves (o := some pr) rfl (fun q j _ hheld => ?_) (fun qr j hqr hj => ?_)
  · have hne : j ≠ i := by
      rintro rfl
      rw [hfree] at hheld
      exact absurd hheld (by simp)
    exact (Function.update_of_ne hne ..).trans hheld
  · rw [Option.some.injEq] at hqr
    subst hqr
    rw [hpr, Option.some.injEq] at hj
    subst hj
    exact Function.update_self ..

/-- A process gives its lock back. -/
theorem Locked.release (hl : s.Locked) (hp : s.procs p = some pr) (hi : pr.lock = some i)
    (hpr' : pr'.lock = none) : ((s.setLock i .free).setProc p pr').Locked := by
  refine hl.moves (o := some pr') rfl (fun q j hq hheld => ?_) (fun qr j hqr hj => ?_)
  · have hne : j ≠ i := by
      rintro rfl
      rw [hl p pr j hp hi] at hheld
      exact hq (Lock.held.inj hheld).symm
    exact (Function.update_of_ne hne ..).trans hheld
  · rw [Option.some.injEq] at hqr
    subst hqr
    exact absurd hj (by simp [hpr'])

theorem Locked.prepareState (hl : s.Locked) (within : Prepare → Process) {done : Process}
    {place : Prepare} (hp : s.procs p = some (within place)) (hdone : done.lock = none)
    (hwithin : ∀ place, (within place).lock =
      match place with
      | .close i => some i
      | _ => none) : (s.prepareState p within done place).Locked := by
  have hset : ∀ {s'}, s.Calls s' → s'.locks = s.locks → ∀ place' : Prepare,
      (within place').lock = none → (s'.setProc p (within place')).Locked :=
    fun hc hlocks place' hnone =>
      hl.setProc hc hlocks _ hp (fun i hi => absurd hi (by simp [hnone]))
  cases place with
  | look =>
    rw [State.prepareState]
    split
    · exact hset (.refl s) rfl _ (hwithin _)
    · exact hset (.refl s) rfl _ (hwithin _)
  | owned =>
    rw [State.prepareState]
    split
    · exact hset (.refl s) rfl _ (hwithin _)
    · exact hl.endProc p false
  | openLock =>
    rw [State.prepareState]
    split
    · exact hl.endProc p false
    · rename_i s' i hopen
      obtain ⟨hcalls, -, hlocks⟩ := openLock_spec hopen
      exact hset hcalls hlocks _ (hwithin _)
  | flock i =>
    rw [State.prepareState]
    split
    · rename_i hfree
      exact hl.acquire hfree p (hwithin (.close i))
    · exact hl.endProc p false
  | close i => exact hl.release hp (hwithin (.close i)) hdone
  | mkdir =>
    rw [State.prepareState]
    split
    · exact hl.endProc p false
    · have hcalls : s.Calls { s with dir := some .empty } := ⟨rfl, rfl⟩
      exact hset hcalls rfl _ (hwithin _)
  | writeOwner =>
    rw [State.prepareState]
    split
    · exact hl.setProc (s.calls_changeDir _) rfl _ hp (fun i hi => absurd hi (by simp [hdone]))
    · exact hl.endProc p false

theorem Locked.commandStart (hl : s.Locked) {place : Start}
    (hp : s.procs p = some (.start place)) : (s.commandStart p place).Locked := by
  have hset : ∀ {s'}, s.Calls s' → s'.locks = s.locks → ∀ place' : Start,
      (Process.start place').lock = none → (s'.setProc p (.start place')).Locked :=
    fun hc hlocks place' hnone =>
      hl.setProc hc hlocks _ hp (fun i hi => absurd hi (by simp [hnone]))
  cases place with
  | unlinkReady => exact hset (s.calls_changeDir _) rfl _ rfl
  | prepare place =>
    refine hl.prepareState (fun place => .start (.prepare place)) hp rfl (fun place => ?_)
    cases place <;> rfl
  | fork | wait => exact hl
  | openPid child =>
    rw [State.commandStart]
    split
    · exact hl.endProc p false
    · rename_i s' j hopen
      have ho := openPid_spec hopen
      exact hset ho.calls ho.locks _ rfl
  | writePid child j => exact hset (s.calls_pidWrite j child) rfl _ rfl

theorem Locked.daemonMain (hl : s.Locked) (hp : s.procs p = some (.daemon place)) :
    (s.daemonMain p place).Locked := by
  have hset : ∀ {s'}, s.Calls s' → s'.locks = s.locks → ∀ place' : Daemon,
      (∀ i, (Process.daemon place').lock = some i → (Process.daemon place).lock = some i) →
      (s'.setProc p (.daemon place')).Locked :=
    fun hc hlocks _ hsame => hl.setProc hc hlocks _ hp hsame
  cases place with
  | openLog =>
    exact hset (s.calls_changeDir _) rfl _ (fun i hi => absurd hi (by simp [Process.lock]))
  | prepare place =>
    refine hl.prepareState (fun place => .daemon (.prepare place)) hp rfl
      (fun place => ?_)
    cases place <;> rfl
  | openLock =>
    rw [State.daemonMain]
    split
    · exact hl.endProc p false
    · rename_i s' i hopen
      obtain ⟨hcalls, -, hlocks⟩ := openLock_spec hopen
      exact hset hcalls hlocks _ (fun j hj => absurd hj (by simp [Process.lock]))
  | flock i =>
    rw [State.daemonMain]
    split
    · rename_i hfree
      exact hl.acquire hfree p rfl
    · exact hl.endProc p false
  | openPid i =>
    rw [State.daemonMain]
    split
    · exact hl.endProc p false
    · rename_i s' j hopen
      have ho := openPid_spec hopen
      exact hset ho.calls ho.locks _ (fun _ => id)
  | writePid i j => exact hset (s.calls_pidWrite j p) rfl _ (fun _ => id)
  | boot | serve => exact hl
  | unlinkSocket i => exact hset (s.calls_changeDir _) rfl _ (fun _ => id)
  | bind i =>
    rw [State.daemonMain]
    split
    · exact hset (s.calls_changeDir _) rfl _ (fun _ => id)
    · exact hset (.refl s) rfl _ (fun _ => id)
  | unlinkServed i => exact hset (s.calls_changeDir _) rfl _ (fun _ => id)
  | owned i =>
    rw [State.daemonMain]
    split
    · exact hset (.refl s) rfl _ (fun _ => id)
    · exact hset (.refl s) rfl _ (fun _ => id)
  | remove i name => cases name <;> exact hset (s.calls_changeDir _) rfl _ (fun _ => id)
  | rmdir i =>
    have hlocks : s.rmdir.locks = s.locks := by
      rw [rmdir]
      split <;> rfl
    exact hset s.calls_rmdir hlocks _ (fun _ => id)
  | close i => exact hl.endProc p false

/-- **A process that has a lock holds it**, in every run. -/
theorem Locked.step (hl : s.Locked) (o : Op) : (s.step o).Locked := by
  have hset : ∀ {p pr} (pr' : Process), s.procs p = some pr →
      (∀ i, pr'.lock = some i → pr.lock = some i) → (s.setProc p pr').Locked :=
    fun pr' hp hsame => hl.setProc (.refl s) rfl pr' hp hsame
  cases o with
  | act p =>
    rw [State.step]
    split
    · rename_i place hp
      exact hl.commandStart hp
    · rename_i place hp
      exact hl.daemonMain hp
    · exact hl
  | start p =>
    rw [State.step]
    split
    · exact hl.moves (o := some (.start .unlinkReady)) rfl (fun _ _ _ => id)
        (fun pr i hpr hi => absurd hi (by simp [← Option.some.inj hpr, Process.lock]))
    · exact hl
  | fork p child =>
    rw [State.step]
    split
    · rename_i hp _
      have hparent := hset (.start (.openPid child)) hp (fun i hi => hi)
      exact hparent.moves (o := some (.daemon .openLog)) rfl (fun _ _ _ => id)
        (fun pr i hpr hi => absurd hi (by simp [← Option.some.inj hpr, Process.lock]))
    · exact hl
  | writeMeta p =>
    rw [State.step]
    split
    · exact hl
    · exact hl
  | booted p =>
    rw [State.step]
    split
    · rename_i i hp
      split
      · exact hset _ hp (fun _ => id)
      · exact hl
    · exact hl
  | giveUp p =>
    rw [State.step]
    split
    · rename_i i hp
      exact hset _ hp (fun _ => id)
    · rename_i i hp
      exact hset _ hp (fun _ => id)
    · rename_i i hp
      exact hset _ hp (fun _ => id)
    · exact hl
  | announce p =>
    rw [State.step]
    split
    · rename_i i hp
      exact hl.setProc (s.calls_changeDir _) rfl _ hp (fun _ => id)
    · exact hl
  | watchdog p =>
    rw [State.step]
    split
    · rename_i i hp
      rw [State.watchdog]
      split
      · exact hl
      · exact hset _ hp (fun _ => id)
    · exact hl
  | leave p =>
    rw [State.step]
    split
    · rename_i i hp
      exact hset _ hp (fun _ => id)
    · exact hl
  | stop =>
    rw [State.step]
    split
    · exact hl
    · split
      · rename_i i hp
        exact hset _ hp (fun _ => id)
      · exact hl
  | die p orphan => exact hl.endProc p orphan
  | orphanGone i =>
    rw [State.step]
    split
    · rename_i horphan
      intro q qr j hq hj
      have hheld := hl q qr j hq hj
      have hne : j ≠ i := by
        rintro rfl
        rw [horphan] at hheld
        exact absurd hheld (by simp)
      exact (Function.update_of_ne hne ..).trans hheld
    · exact hl

theorem locked_init : init.Locked := fun p pr i hp => absurd hp (by simp [init])

theorem consistent_init : init.Consistent := ⟨fun p pr hp => absurd hp (by simp [init]), rfl⟩

/-- **Daemons keep what is theirs** throughout a run exactly when none of its steps disturbs one:
each finds the lock, the pid file, the socket and `ready` as it left them, and no watchdog makes
it quit. -/
theorem consistent_iff_undisturbed (ops : List Op) :
    (∀ s ∈ states step init ops, s.Locked ∧ s.Consistent) ↔
      AllSteps step Undisturbing init ops := by
  have hlocked : ∀ s ∈ states step init ops, s.Locked :=
    invariant (A := fun _ => True) (fun s o _ hl => hl.step o) locked_init (fun _ _ => trivial)
  have hruns : (∀ s ∈ states step init ops, s.Consistent) ↔ AllSteps step Undisturbing init ops :=
    states_iff_allSteps_of_kept (I := Locked) (P := Consistent) (fun _ o hl _ _ => hl.step o)
      (fun _ o hl h => consistent_step hl h o) locked_init consistent_init
  rw [← hruns]
  exact ⟨fun h s hs => (h s hs).2, fun h s hs => ⟨hlocked s hs, h s hs⟩⟩

/-- A second `session start` finds the session in use, and has removed its `ready` by then. -/
theorem live_session_loses_ready :
    ¬ ∀ s ∈ states step init
      ([.start 1, .act 1, .act 1, .act 1, .act 1, .fork 1 2, .act 1, .act 1] ++
        List.replicate 10 (.act 2) ++
        [.writeMeta 2, .booted 2, .act 2, .act 2, .announce 2, .start 3, .act 3]),
      s.Locked ∧ s.Consistent := by
  intro h
  have hlast := (h _ (foldl_mem_states ..)).2.grants 2 (.daemon (.serve 1 true)) (by decide)
  exact absurd (hlast.announced rfl) (by decide)

end State

end NeoProot.UmSession.Ownership
