import Mathlib.Data.Nat.Notation
import Mathlib.Logic.Function.Basic

/-!
# Permissions that are lent for a call

A tracee whose fake effective user is root may walk where the user of the tracer may not.  At
each component of a path the tracer gives the object the rights that root would have, and it
keeps the path and the mode to be set when the call is over.

## Main definitions

* `Store` — where paths lead, and the modes.
* `overridePermissions`, `walk` — rights are lent, and a record is kept.
* `restoreMode`, `restoreModes` — the records are undone.
* `Effect` — what the kernel does in between.
-/

namespace NeoProot.Permissions

variable {Path Inode : Type*} [DecidableEq Inode]

/-- The permission bits of `mode_t`, with the three special ones. -/
abbrev Mode := BitVec 12

/-- `S_IRWXU | S_IRWXG | S_IRWXO`. -/
def rwxAll : Mode := 0o777

/-- `S_IRUSR | S_IWUSR`. -/
def readWriteUser : Mode := 0o600

/-- `S_IXUSR`. -/
def searchUser : Mode := 0o100

/-- What the host has: where a path leads with links followed, the directories that are searched
on the way, and of each object its mode, whether the user of the tracer owns it, and the bit of
its mode that lets the tracer search it. -/
@[ext] structure Store (Path Inode : Type*) where
  leads : Path → Option Inode
  above : Path → List Inode
  mode : Inode → Mode
  isDir : Inode → Bool
  owned : Inode → Bool
  searchBit : Inode → Mode
  isDir_above : ∀ path, ∀ d ∈ above path, isDir d = true
  searchBit_owned : ∀ i, owned i = true → searchBit i = searchUser

namespace Store

/-- A path is looked up, with search permission for each directory above. -/
def look (s : Store Path Inode) (path : Path) : Option Inode :=
  if (s.above path).all fun d => s.mode d &&& s.searchBit d ≠ 0 then s.leads path else none

/-- `chmod`: the owner may. -/
def chmod (s : Store Path Inode) (path : Path) (mode : Mode) : Store Path Inode :=
  match s.look path with
  | none => s
  | some i => if s.owned i then { s with mode := Function.update s.mode i mode } else s

end Store

/-- The calls that `override_permissions` tells apart. -/
inductive Sysnum
  | prChmod
  | prFchmodat
  | prFstatat64 | prLstat | prLstat64 | prNewfstatat | prOldlstat | prOldstat | prStat | prStat64
  | prStatfs | prStatfs64
  | prOther
  deriving DecidableEq, Repr

/-- The registers of the tracee at the entry of its call, and its fake effective user. -/
structure Tracee where
  sysnum : Sysnum
  sysarg2 : UInt64
  sysarg3 : UInt64
  euid : ℕ

/-- `ModifiedNode`. -/
structure ModifiedNode (Path : Type*) where
  path : Path
  mode : Mode

/-- The mode that is to be set at the end, if any. -/
def recordedMode (t : Tracee) (mode : Mode) (isFinal : Bool) : Option Mode :=
  if isFinal then
    match t.sysnum with
    | .prChmod => some (t.sysarg2.toBitVec.setWidth 12)
    | .prFchmodat => some (t.sysarg3.toBitVec.setWidth 12)
    | .prOther => some mode
    -- The calls that only look get no rights.
    | _ => none
  else some mode

/-- The rights that root has. -/
def rightsOfRoot (mode : Mode) (isDir : Bool) : Mode :=
  let newMode := mode &&& rwxAll ||| readWriteUser
  if isDir then newMode ||| searchUser else newMode

variable (skips : Path → Bool)

/-- `override_permissions`: the host and the records, the newest in front.  `skips` is
`should_skip_file_access_due_to_f2fs_bug`. -/
def overridePermissions (t : Tracee) (s : Store Path Inode) (nodes : List (ModifiedNode Path))
    (path : Path) (isFinal : Bool) : Store Path Inode × List (ModifiedNode Path) :=
  if skips path then (s, nodes)
  else
    match s.look path with
    | none => (s, nodes)
    | some i =>
      let newMode := rightsOfRoot (s.mode i) (s.isDir i)
      if newMode = s.mode i &&& rwxAll then (s, nodes)
      else
        match recordedMode t (s.mode i) isFinal with
        | none => (s, nodes)
        | some mode => (s.chmod path newMode, ⟨path, mode⟩ :: nodes)

/-- The case `HOST_PATH` of `fake_id0_callback`. -/
def hostPath (t : Tracee) (state : Store Path Inode × List (ModifiedNode Path))
    (visit : Path × Bool) : Store Path Inode × List (ModifiedNode Path) :=
  if t.euid = 0 then overridePermissions skips t state.1 state.2 visit.1 visit.2 else state

/-- The components that are visited in the translation of a call. -/
def walk (t : Tracee) (s : Store Path Inode) (visits : List (Path × Bool)) :
    Store Path Inode × List (ModifiedNode Path) :=
  visits.foldl (hostPath skips t) (s, [])

/-- What the kernel does in a call on this host, with the rights that the call needs: where paths
lead after it, and the modes that it sets. -/
structure Effect (s : Store Path Inode) where
  leads : Path → Option Inode
  above : Path → List Inode
  sets : Inode → Option Mode
  isDir_above : ∀ path, ∀ d ∈ above path, s.isDir d = true

/-- The modes after the call, from those before it. -/
def Effect.modes {s : Store Path Inode} (e : Effect s) (mode : Inode → Mode) (i : Inode) : Mode :=
  (e.sets i).getD (mode i)

/-- The host after the call, from some modes before it. -/
def Effect.run {s : Store Path Inode} (e : Effect s) (mode : Inode → Mode) : Store Path Inode :=
  { s with
    leads := e.leads
    above := e.above
    mode := e.modes mode
    isDir_above := e.isDir_above }

/-- `restore_mode`, the destructor of a record. -/
def restoreMode (s : Store Path Inode) (node : ModifiedNode Path) : Store Path Inode :=
  s.chmod node.path node.mode

/-- The context of the tracee is freed, at its next stop. -/
def restoreModes (s : Store Path Inode) (nodes : List (ModifiedNode Path)) : Store Path Inode :=
  nodes.foldl restoreMode s

/-- A call of the guest: rights are lent, the kernel runs, and the records are undone in some
order. -/
def runCall (t : Tracee) (s : Store Path Inode) (visits : List (Path × Bool)) (e : Effect s)
    (order : List (ModifiedNode Path) → List (ModifiedNode Path)) : Store Path Inode :=
  restoreModes (e.run (walk skips t s visits).1.mode) (order (walk skips t s visits).2)

end NeoProot.Permissions
