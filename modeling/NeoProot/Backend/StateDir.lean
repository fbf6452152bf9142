import Mathlib.Data.Nat.Notation
import Mathlib.Logic.Function.Basic

/-!
# The state directory of a session

A session is a directory with a lock, a pid file, a socket and a file `ready`.  `session start`
makes the directory and forks the daemon, and both write the pid file; the daemon holds the lock
for its whole life and removes what is in the directory, the lock among the rest, when it ends.
Any number of these run at the same time, one system call of one process after the other.

A lock belongs to an inode and not to a name, so files are inodes here: whoever opened the lock
or the pid file works on what was there at that moment.

## Main definitions

* `State` — the directory, its inodes and the processes.
* `State.commandStart`, `State.daemonMain` — what a process does with its next system call.
* `State.step` — what happens next.
-/

namespace NeoProot.UmSession.Ownership

/-! ### The directory -/

/-- The files that `um_session_remove_state` removes. -/
inductive Name
  | ctlSock
  | pid
  | lock
  | owner
  | log
  | metaFile
  | ready
  | stop
  deriving DecidableEq, Repr

/-- The order in which it removes them. -/
def Name.next : Name → Option Name
  | .ctlSock => some .pid
  | .pid => some .lock
  | .lock => some .owner
  | .owner => some .log
  | .log => some .metaFile
  | .metaFile => some .ready
  | .ready => some .stop
  | .stop => none

/-- The state directory: the inodes of `lock` and `pid`, who bound `ctl.sock` and who wrote
`ready`. -/
structure Dir where
  lock : Option ℕ
  pid : Option ℕ
  ctlSock : Option ℕ
  ready : Option ℕ
  owner : Bool
  log : Bool
  metaFile : Bool
  stop : Bool
  deriving DecidableEq, Repr

namespace Dir

/-- What `mkdir` makes. -/
def empty : Dir := ⟨none, none, none, none, false, false, false, false⟩

def unlink (d : Dir) : Name → Dir
  | .ctlSock => { d with ctlSock := none }
  | .pid => { d with pid := none }
  | .lock => { d with lock := none }
  | .owner => { d with owner := false }
  | .log => { d with log := false }
  | .metaFile => { d with metaFile := false }
  | .ready => { d with ready := none }
  | .stop => { d with stop := false }

/-- `bind`. -/
def setCtlSock (p : ℕ) (d : Dir) : Dir := { d with ctlSock := some p }

/-- `um_daemon_publish` of `ready`. -/
def setReady (p : ℕ) (d : Dir) : Dir := { d with ready := some p }

end Dir

/-! ### Processes -/

/-- Where a process is in `um_session_prepare_state`. -/
inductive Prepare
  | look
  | owned
  | openLock
  | flock (lock : ℕ)
  | close (lock : ℕ)
  | mkdir
  | writeOwner
  deriving DecidableEq, Repr

/-- Where it is in `um_session_command_start`. -/
inductive Start
  | unlinkReady
  | prepare (place : Prepare)
  | fork
  | openPid (child : ℕ)
  | writePid (child pid : ℕ)
  | wait (child : ℕ)
  deriving DecidableEq, Repr

/-- Where it is in `neoproot_um_session_daemon_main`, with the inode that it locked. -/
inductive Daemon
  | openLog
  | prepare (place : Prepare)
  | openLock
  | flock (lock : ℕ)
  | openPid (lock : ℕ)
  | writePid (lock pid : ℕ)
  | boot (lock : ℕ)
  | unlinkSocket (lock : ℕ)
  | bind (lock : ℕ)
  /-- The loop of `um_daemon_listen`, before and after the guest was ready. -/
  | serve (lock : ℕ) (ready : Bool)
  | unlinkServed (lock : ℕ)
  /-- `um_session_remove_state`. -/
  | owned (lock : ℕ)
  | remove (lock : ℕ) (name : Name)
  | rmdir (lock : ℕ)
  | close (lock : ℕ)
  deriving DecidableEq, Repr

inductive Process
  | start (place : Start)
  | daemon (place : Daemon)
  deriving DecidableEq, Repr

/-- The lock of an inode.  A process that ends may leave it to a child. -/
inductive Lock
  | free
  | held (p : ℕ)
  | orphaned
  deriving DecidableEq, Repr

/-- The directory, the lock and the first line of every inode, the processes by their pids, and
the daemons that the watchdog made quit. -/
structure State where
  dir : Option Dir
  locks : ℕ → Lock
  lines : ℕ → Option ℕ
  fresh : ℕ
  procs : ℕ → Option Process
  evicted : List ℕ

namespace State

def setProc (s : State) (p : ℕ) (pr : Process) : State :=
  { s with procs := Function.update s.procs p (some pr) }

/-- A process ends, and a child may keep the locks that it had. -/
def endProc (s : State) (p : ℕ) (orphan : Bool) : State :=
  { s with
    procs := Function.update s.procs p none
    locks := fun i =>
      if s.locks i = .held p then if orphan then .orphaned else .free else s.locks i }

def changeDir (s : State) (f : Dir → Dir) : State := { s with dir := s.dir.map f }

def setLock (s : State) (i : ℕ) (l : Lock) : State :=
  { s with locks := Function.update s.locks i l }

/-! ### System calls -/

/-- `open` of `lock`, with `O_CREAT`. -/
def openLock (s : State) : Option (State × ℕ) :=
  match s.dir with
  | none => none
  | some d =>
    match d.lock with
    | some i => some (s, i)
    | none => some ({ s with dir := some { d with lock := some s.fresh }, fresh := s.fresh + 1 },
        s.fresh)

/-- `open` of `pid`, with `O_CREAT` and `O_TRUNC`. -/
def openPid (s : State) : Option (State × ℕ) :=
  match s.dir with
  | none => none
  | some d =>
    match d.pid with
    | some j => some ({ s with lines := Function.update s.lines j none }, j)
    | none =>
      some ({ s with
        dir := some { d with pid := some s.fresh }
        lines := Function.update s.lines s.fresh none
        fresh := s.fresh + 1 }, s.fresh)

/-- `write` of a line to a pid file. -/
def pidWrite (s : State) (j line : ℕ) : State :=
  { s with lines := Function.update s.lines j (some line) }

def rmdir (s : State) : State := if s.dir = some Dir.empty then { s with dir := none } else s

/-- `um_session_pid_read`. -/
def pidRead (s : State) : Option ℕ := (s.dir.bind (·.pid)).bind s.lines

/-- `um_session_owned`. -/
def owned (s : State) : Bool := s.dir.any (·.owner)

/-! ### The programs -/

/-- `um_session_prepare_state`, for a process that is in it and goes on at `done`. -/
def prepareState (s : State) (p : ℕ) (within : Prepare → Process) (done : Process) :
    Prepare → State
  | .look => s.setProc p (within (if s.dir.isSome then .owned else .mkdir))
  | .owned => if s.owned then s.setProc p (within .openLock) else s.endProc p false
  | .openLock =>
    match s.openLock with
    | none => s.endProc p false
    | some (s, i) => s.setProc p (within (.flock i))
  | .flock i =>
    if s.locks i = .free then (s.setLock i (.held p)).setProc p (within (.close i))
    else s.endProc p false
  | .close i => (s.setLock i .free).setProc p done
  | .mkdir =>
    if s.dir.isSome then s.endProc p false
    else { s with dir := some .empty }.setProc p (within .writeOwner)
  | .writeOwner =>
    if s.dir.isSome then (s.changeDir fun d => { d with owner := true }).setProc p done
    else s.endProc p false

/-- `um_session_command_start`. -/
def commandStart (s : State) (p : ℕ) : Start → State
  | .unlinkReady => (s.changeDir (·.unlink .ready)).setProc p (.start (.prepare .look))
  | .prepare place => s.prepareState p (fun place => .start (.prepare place)) (.start .fork) place
  | .openPid child =>
    match s.openPid with
    | none => s.endProc p false
    | some (s, j) => s.setProc p (.start (.writePid child j))
  | .writePid child j => (s.pidWrite j child).setProc p (.start (.wait child))
  | .fork | .wait _ => s

/-- `neoproot_um_session_daemon_main`, as far as it waits for nobody. -/
def daemonMain (s : State) (p : ℕ) : Daemon → State
  | .openLog => (s.changeDir fun d => { d with log := true }).setProc p (.daemon (.prepare .look))
  | .prepare place =>
    s.prepareState p (fun place => .daemon (.prepare place)) (.daemon .openLock) place
  | .openLock =>
    match s.openLock with
    | none => s.endProc p false
    | some (s, i) => s.setProc p (.daemon (.flock i))
  | .flock i =>
    if s.locks i = .free then (s.setLock i (.held p)).setProc p (.daemon (.openPid i))
    else s.endProc p false
  | .openPid i =>
    match s.openPid with
    | none => s.endProc p false
    | some (s, j) => s.setProc p (.daemon (.writePid i j))
  | .writePid i j => (s.pidWrite j p).setProc p (.daemon (.boot i))
  | .unlinkSocket i => (s.changeDir (·.unlink .ctlSock)).setProc p (.daemon (.bind i))
  | .bind i =>
    if s.dir.any (·.ctlSock = none) then
      (s.changeDir (.setCtlSock p)).setProc p (.daemon (.serve i false))
    else s.setProc p (.daemon (.owned i))
  | .unlinkServed i => (s.changeDir (·.unlink .ctlSock)).setProc p (.daemon (.owned i))
  | .owned i =>
    s.setProc p (.daemon (if s.owned then .remove i .ctlSock else .close i))
  | .remove i name =>
    (s.changeDir (·.unlink name)).setProc p
      (.daemon (match name.next with
        | some next => .remove i next
        | none => .rmdir i))
  | .rmdir i => s.rmdir.setProc p (.daemon (.close i))
  | .close _ => s.endProc p false
  | .boot _ | .serve _ _ => s

end State

/-- What happens next. -/
inductive Op
  /-- The user enters `session start`. -/
  | start (p : ℕ)
  /-- A process makes its next system call. -/
  | act (p : ℕ)
  | fork (p child : ℕ)
  /-- The supervisor of a daemon records the channel. -/
  | writeMeta (p : ℕ)
  /-- The daemon reads that. -/
  | booted (p : ℕ)
  /-- There is no supervisor or channel, or the socket cannot be made. -/
  | giveUp (p : ℕ)
  /-- The guest is ready. -/
  | announce (p : ℕ)
  | watchdog (p : ℕ)
  /-- The loop of the daemon ends for any other reason. -/
  | leave (p : ℕ)
  /-- `session stop` reaches the daemon that bound the socket. -/
  | stop
  /-- A process ends where it is. -/
  | die (p : ℕ) (orphan : Bool)
  /-- The last child with a lock ends. -/
  | orphanGone (i : ℕ)
  deriving DecidableEq, Repr

namespace State

/-- What the watchdog does with the pid that it reads. -/
def watchdog (s : State) (p i : ℕ) : State :=
  if s.pidRead = some p then s
  else { s.setProc p (.daemon (.unlinkServed i)) with evicted := p :: s.evicted }

/-- One step.  What no process is ready for does nothing. -/
def step (s : State) : Op → State
  | .start p => if s.procs p = none then s.setProc p (.start .unlinkReady) else s
  | .act p =>
    match s.procs p with
    | some (.start place) => s.commandStart p place
    | some (.daemon place) => s.daemonMain p place
    | none => s
  | .fork p child =>
    match s.procs p, s.procs child with
    | some (.start .fork), none =>
      (s.setProc p (.start (.openPid child))).setProc child (.daemon .openLog)
    | _, _ => s
  | .writeMeta p =>
    match s.procs p with
    | some (.daemon (.boot _)) => s.changeDir fun d => { d with metaFile := true }
    | _ => s
  | .booted p =>
    match s.procs p with
    | some (.daemon (.boot i)) =>
      if s.dir.any (·.metaFile) then s.setProc p (.daemon (.unlinkSocket i)) else s
    | _ => s
  | .giveUp p =>
    match s.procs p with
    | some (.daemon (.boot i)) | some (.daemon (.unlinkSocket i)) | some (.daemon (.bind i)) =>
      s.setProc p (.daemon (.owned i))
    | _ => s
  | .announce p =>
    match s.procs p with
    | some (.daemon (.serve i false)) =>
      (s.changeDir (.setReady p)).setProc p (.daemon (.serve i true))
    | _ => s
  | .watchdog p =>
    match s.procs p with
    | some (.daemon (.serve i _)) => s.watchdog p i
    | _ => s
  | .leave p =>
    match s.procs p with
    | some (.daemon (.serve i _)) => s.setProc p (.daemon (.unlinkServed i))
    | _ => s
  | .stop =>
    match s.dir.bind (·.ctlSock) with
    | none => s
    | some p =>
      match s.procs p with
      | some (.daemon (.serve i _)) => s.setProc p (.daemon (.unlinkServed i))
      | _ => s
  | .die p orphan => s.endProc p orphan
  | .orphanGone i => if s.locks i = .orphaned then s.setLock i .free else s

/-- Nobody has used the name of the session yet. -/
def init : State := ⟨none, fun _ => .free, fun _ => none, 0, fun _ => none, []⟩

end State

end NeoProot.UmSession.Ownership
