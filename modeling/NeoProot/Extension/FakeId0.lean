import NeoProot.Basic
import NeoProot.Lib.Run

/-!
# Fake credentials

The `fake_id0` extension answers the calls that read or change the identity of a
tracee from a record of its own.  Its rules are written once for users and once for
groups, as macros.  Here a macro is one function on the four ids it works on.

The mode creation mask in the same record is not part of an identity and stays
outside, and so is the second copy of the dispatch that serves cancelled calls.

## Main definitions

* `Ids`, `Config` — the identity of a tracee.
* `setxid`, `setrexid`, `setresxid`, `setfsxid` — the macros.
* `Config.exitEnd` — the answer to a call.
* `Linux.call` — the answer of the kernel.
* `Config.FollowsLinux` — the calls whose answers are the same.
-/

namespace NeoProot.FakeId0

/-- The four user ids, or the four group ids, of a process. -/
structure Ids where
  real : UInt32
  effective : UInt32
  saved : UInt32
  fs : UInt32
  deriving DecidableEq, Repr

/-- `Config`: the user ids and the group ids. -/
structure Config where
  uid : Ids
  gid : Ids
  deriving DecidableEq, Repr

/-- The ids of the tracer itself: `getuid()` or `getgid()`, and `geteuid()` or
`getegid()`. -/
structure HostIds where
  real : UInt32
  effective : UInt32
  deriving DecidableEq, Repr

/-- The id `-1`. -/
def unset : UInt32 := -1

/-- `UNCHANGED_ID`. -/
def unchangedId (id cfgId : UInt32) : Bool := id = unset || id = cfgId

/-- `EQUALS_ANY_ID`. -/
def equalsAnyId (id : UInt32) (c : Ids) : Bool :=
  id = c.real || id = c.effective || id = c.saved

/-- `SETXID`.  `root` is `config->euid == 0`, also for groups. -/
def setxid (host : HostIds) (root : Bool) (c : Ids) (id : UInt32) : Except Errno Ids :=
  let allowed := root || id = c.real || id = c.effective || id = c.saved
  let allowed := allowed ||
    (if id = host.effective ∧ c.effective = host.effective then true
      else c.effective ≠ 0 && id = host.real)
  if ¬ allowed then .error .eperm
  else
    let c := if root then { c with real := id, saved := id } else c
    .ok { c with effective := id, fs := id }

/-- `SETREXID`. -/
def setrexid (root : Bool) (c : Ids) (real effective : UInt32) : Except Errno Ids :=
  let allowed := root ||
    (unchangedId effective c.effective && unchangedId real c.real) ||
    (real = c.effective && (effective = c.real || unchangedId effective c.effective)) ||
    (effective = c.real && (real = c.effective || unchangedId real c.real)) ||
    (effective = c.saved && unchangedId real c.real)
  if ¬ allowed then .error .eperm
  else
    let c :=
      if effective ≠ unset then
        let c := if effective ≠ c.real then { c with saved := effective } else c
        { c with effective := effective, fs := effective }
      else c
    let c :=
      if real ≠ unset then
        let c := if effective ≠ unset then { c with saved := effective } else c
        { c with real := real }
      else c
    .ok c

/-- `SETRESXID`. -/
def setresxid (root : Bool) (c : Ids) (real effective saved : UInt32) : Except Errno Ids :=
  let allowed := root ||
    ((real = unset || equalsAnyId real c) && (effective = unset || equalsAnyId effective c) &&
      (saved = unset || equalsAnyId saved c))
  if ¬ allowed then .error .eperm
  else
    let c := if real ≠ unset then { c with real := real } else c
    let c := if effective ≠ unset then { c with effective := effective, fs := effective } else c
    .ok (if saved ≠ unset then { c with saved := saved } else c)

/-- `SETFSXID`: the ids, and the old one that is returned. -/
def setfsxid (root : Bool) (c : Ids) (fs : UInt32) : Ids × UInt32 :=
  let allowed := root || fs = c.fs || equalsAnyId fs c
  (if allowed then { c with fs := fs } else c, c.fs)

def sIsuid : UInt32 := 0o4000
def sIsgid : UInt32 := 0o2000
def sIxgrp : UInt32 := 0o10

/-- An `execve` at its exit: whether it failed, whether the binding of the executable
is mounted `nosuid`, the mode of the executable, and whether `stat` finds it. -/
structure Exec where
  failed : Bool
  nosuid : Bool
  mode : UInt32
  found : Bool
  deriving DecidableEq, Repr

/-- The calls, with their argument registers. -/
inductive Call
  | setuid (id : UInt64)
  | setgid (id : UInt64)
  | setreuid (real effective : UInt64)
  | setregid (real effective : UInt64)
  | setresuid (real effective saved : UInt64)
  | setresgid (real effective saved : UInt64)
  | setfsuid (fs : UInt64)
  | setfsgid (fs : UInt64)
  | execve (x : Exec)
  deriving DecidableEq, Repr

/-- The state and the result of a call that changes the user ids. -/
def Config.putUid (c : Config) : Except Errno Ids → Config × Except Errno UInt32
  | .error e => (c, .error e)
  | .ok ids => ({ c with uid := ids }, .ok 0)

/-- The state and the result of a call that changes the group ids. -/
def Config.putGid (c : Config) : Except Errno Ids → Config × Except Errno UInt32
  | .error e => (c, .error e)
  | .ok ids => ({ c with gid := ids }, .ok 0)

/-- `handle_sysexit_start`, as far as it changes the ids. -/
def Config.exitStart (c : Config) (x : Exec) : Config :=
  if x.failed then c
  else if x.nosuid then c
  else if ¬ x.found then c
  else
    let c := if x.mode &&& sIsuid ≠ 0 then { c with uid := { c.uid with effective := 0, saved := 0 } }
      else c
    if x.mode &&& sIsgid ≠ 0 then { c with gid := { c.gid with effective := 0, saved := 0 } } else c

/-- What the extension makes of the exit of a call: the cases of
`handle_sysexit_end`, and for `execve` what it does at the start of the exit.  The
macros take both capabilities from the effective user id. -/
def Config.exitEnd (hostUid hostGid : HostIds) (c : Config) : Call → Config × Except Errno UInt32
  | .setuid id => c.putUid (setxid hostUid (c.uid.effective = 0) c.uid id.toUInt32)
  | .setgid id => c.putGid (setxid hostGid (c.uid.effective = 0) c.gid id.toUInt32)
  | .setreuid real effective =>
    c.putUid (setrexid (c.uid.effective = 0) c.uid real.toUInt32 effective.toUInt32)
  | .setregid real effective =>
    c.putGid (setrexid (c.uid.effective = 0) c.gid real.toUInt32 effective.toUInt32)
  | .setresuid real effective saved =>
    c.putUid (setresxid (c.uid.effective = 0) c.uid real.toUInt32 effective.toUInt32 saved.toUInt32)
  | .setresgid real effective saved =>
    c.putGid (setresxid (c.uid.effective = 0) c.gid real.toUInt32 effective.toUInt32 saved.toUInt32)
  | .setfsuid fs =>
    let (ids, old) := setfsxid (c.uid.effective = 0) c.uid fs.toUInt32
    ({ c with uid := ids }, .ok old)
  | .setfsgid fs =>
    let (ids, old) := setfsxid (c.uid.effective = 0) c.gid fs.toUInt32
    ({ c with gid := ids }, .ok old)
  | .execve x => (c.exitStart x, .ok 0)

/-- The `Config` that `INITIALIZATION` makes. -/
def Config.initial (uid gid : UInt32) : Config :=
  ⟨⟨uid, uid, uid, uid⟩, ⟨gid, gid, gid, gid⟩⟩

/-! ### The rules of the kernel -/

namespace Linux

/-- `setuid(2)`, `setgid(2)`: `capable` is the capability for the kind of id. -/
def setxid (capable : Bool) (c : Ids) (id : UInt32) : Except Errno Ids :=
  if id = unset then .error .einval
  else if capable then .ok ⟨id, id, id, id⟩
  else if id = c.real ∨ id = c.saved then .ok { c with effective := id, fs := id }
  else .error .eperm

/-- Who may ask `setreuid(2)` or `setregid(2)` for these ids. -/
def mayReset (capable : Bool) (c : Ids) (real effective : UInt32) : Bool :=
  capable ||
    ((real = unset || real = c.real || real = c.effective) &&
      (effective = unset || effective = c.real || effective = c.effective || effective = c.saved))

/-- `setreuid(2)`, `setregid(2)`. -/
def setrexid (capable : Bool) (c : Ids) (real effective : UInt32) : Except Errno Ids :=
  if ¬ mayReset capable c real effective then .error .eperm
  else
    let newReal := if real = unset then c.real else real
    let newEffective := if effective = unset then c.effective else effective
    .ok
      { real := newReal
        effective := newEffective
        saved :=
          if real ≠ unset ∨ (effective ≠ unset ∧ effective ≠ c.real) then newEffective else c.saved
        fs := newEffective }

/-- Who may ask `setresuid(2)` or `setresgid(2)` for these ids. -/
def mayResetAll (capable : Bool) (c : Ids) (real effective saved : UInt32) : Bool :=
  capable ||
    [real, effective, saved].all fun id =>
      id = unset || id = c.real || id = c.effective || id = c.saved

/-- `setresuid(2)`, `setresgid(2)`. -/
def setresxid (capable : Bool) (c : Ids) (real effective saved : UInt32) : Except Errno Ids :=
  if ¬ mayResetAll capable c real effective saved then .error .eperm
  else
    let newEffective := if effective = unset then c.effective else effective
    .ok
      { real := if real = unset then c.real else real
        effective := newEffective
        saved := if saved = unset then c.saved else saved
        fs := newEffective }

/-- `setfsuid(2)`, `setfsgid(2)`. -/
def setfsxid (capable : Bool) (c : Ids) (fs : UInt32) : Ids × UInt32 :=
  let allowed := capable || fs = c.real || fs = c.effective || fs = c.saved || fs = c.fs
  (if fs ≠ unset ∧ allowed then { c with fs := fs } else c, c.fs)

/-- The ids of one kind after `execve(2)`.  A set-id program belongs to root, as every
file does for the guest. -/
def execve (setId : Bool) (c : Ids) : Ids :=
  let effective := if setId then 0 else c.effective
  { c with effective := effective, saved := effective, fs := effective }

/-- A call of a process that has both capabilities while its effective user id is 0. -/
def call (c : Config) : Call → Config × Except Errno UInt32
  | .setuid id => c.putUid (setxid (c.uid.effective = 0) c.uid id.toUInt32)
  | .setgid id => c.putGid (setxid (c.uid.effective = 0) c.gid id.toUInt32)
  | .setreuid real effective =>
    c.putUid (setrexid (c.uid.effective = 0) c.uid real.toUInt32 effective.toUInt32)
  | .setregid real effective =>
    c.putGid (setrexid (c.uid.effective = 0) c.gid real.toUInt32 effective.toUInt32)
  | .setresuid real effective saved =>
    c.putUid (setresxid (c.uid.effective = 0) c.uid real.toUInt32 effective.toUInt32 saved.toUInt32)
  | .setresgid real effective saved =>
    c.putGid (setresxid (c.uid.effective = 0) c.gid real.toUInt32 effective.toUInt32 saved.toUInt32)
  | .setfsuid fs =>
    let (ids, old) := setfsxid (c.uid.effective = 0) c.uid fs.toUInt32
    ({ c with uid := ids }, .ok old)
  | .setfsgid fs =>
    let (ids, old) := setfsxid (c.uid.effective = 0) c.gid fs.toUInt32
    ({ c with gid := ids }, .ok old)
  | .execve x =>
    if x.failed then (c, .ok 0)
    else
      ({ uid := execve (!x.nosuid && x.mode &&& sIsuid ≠ 0) c.uid
         gid := execve (!x.nosuid && x.mode &&& sIsgid ≠ 0 && x.mode &&& sIxgrp ≠ 0) c.gid },
        .ok 0)

end Linux

end NeoProot.FakeId0
