import NeoProot.Path.Dirfd
import NeoProot.Path.Mounts

/-!
# `pivot_root`

`emulate_pivot_root` makes a directory the new guest root by rebuilding the binding
table.  The bindings below the new root move up with it; those of the old tree are
copied below the place the old root is put at.

What else the call does, to the alias of an old root and to the names remembered for
descriptors, is not about the table and stays outside.

## Main definitions

* `guestCanonicalize` — the guest name of a user path.
* `PivotRoot`, `pivotPaths` — the paths of a call.
* `Bindings.pivotRoot` — the rebuilding of the table.
* `emulatePivotRoot` — the call.
-/

namespace NeoProot
open MountTable

/-- `chop_finality`. -/
def chopFinality (path : CStr) : CStr :=
  let len := path.length
  if len < 2 then path
  else if path[len - 1]? = some '.' then path.take (if len = 2 then len - 1 else len - 2)
  else if path[len - 1]? = some '/' then path.take (len - 1)
  else path

/-- `getcwd2`. -/
def getcwd2 (tracee : Tracee) : Except Errno CStr :=
  if pathMax ≤ tracee.fs.cwd.length then .error .enametoolong else .ok tracee.fs.cwd

/-- `guest_canonicalize`. -/
def guestCanonicalize (w : World) (userPath : CStr) : Except Errno CStr :=
  match if IsAbsolute userPath then .ok ['/'] else getcwd2 w.tracee with
  | .error e => .error e
  | .ok guestPath =>
    match canonicalize w userPath true guestPath with
    | .error e => .error e
    | .ok guestPath => .ok (chopFinality guestPath)

/-- The paths of a call: the new root on the host and in the guest, and where the old
root is to be put. -/
structure PivotRoot where
  newRootHost : CStr
  newRootGuest : CStr
  putOldGuest : CStr
  deriving DecidableEq, Repr

namespace PivotRoot

/-- `put_old_after`, where `have_put_old`: the place of the old root below the new
one. -/
def putOldAfter (a : PivotRoot) : Option CStr :=
  let newRootLen := a.newRootGuest.length
  if 0 < newRootLen ∧ a.newRootGuest <+: a.putOldGuest ∧
      (a.putOldGuest[newRootLen]? = some '/' ∨ (newRootLen = 1 ∧ a.newRootGuest[0]? = some '/'))
  then
    let after := a.putOldGuest.drop (if newRootLen = 1 then 0 else newRootLen)
    if after[0]? = some '/' ∧ after[1]? ≠ none then some after else none
  else none

end PivotRoot

namespace Bindings

/-- What the loop of `emulate_pivot_root` does for one binding of the snapshot. -/
def pivotStep (root : Binding) (a : PivotRoot) (t : Bindings) (b : Binding) : Bindings :=
  let newRootLen := a.newRootGuest.length
  if b.addr = root.addr ∨ b.guest = ['/'] then t
  else if b.guest = a.newRootGuest then
    let t :=
      match a.putOldAfter, b.coveredBinding with
      | some after, some covered =>
        let aliased := after ++ b.guest
        if aliased.length < pathMax then (t.copyBinding covered aliased).1 else t
      | _, _ => t
    t.removeBindingFromAllLists b.addr
  -- The bindings below the new root move with it: /newroot/usr -> /usr.
  else if 0 < newRootLen ∧ newRootLen < b.guest.length ∧ a.newRootGuest <+: b.guest ∧
      b.guest[newRootLen]? = some '/' then
    ((t.copyBinding b (b.guest.drop newRootLen)).1).removeBindingFromAllLists b.addr
  else
    -- The others belong to the old tree and show up below put_old.
    match a.putOldAfter with
    | none => t
    | some after =>
      if after <+: b.guest ∧ (b.guest[after.length]? = none ∨ b.guest[after.length]? = some '/') then t
      else if pathMax ≤ (after ++ b.guest).length then t
      else (t.copyBinding b (after ++ b.guest)).1

/-- The table when the loop begins: the new root in place of the old one, and the old
one at its new place. -/
def pivotStart (root : Binding) (a : PivotRoot) (t : Bindings) : Bindings :=
  let newRootBinding := t.getBinding .guest a.newRootGuest
  let readonly := newRootBinding.any (·.readonly)
  let sourceReadonly := newRootBinding.any (·.sourceReadonly)
  let mountFlags := (newRootBinding.map (·.mountFlags)).getD 0
  let sourceMountFlags := (newRootBinding.map (·.sourceMountFlags)).getD 0
  let t := t.removeBindingFromAllLists root.addr
  let (t, newRoot) := t.insortBinding3 a.newRootHost ['/']
  let t := t.update newRoot.addr
    (·.setAttributes readonly sourceReadonly mountFlags sourceMountFlags)
  match a.putOldAfter with
  | none => t
  | some after => (t.insortBinding3 root.host after).1

/-- The rebuilding of the table. -/
def pivotRoot (root : Binding) (a : PivotRoot) (t : Bindings) : Bindings :=
  t.guest.foldl (pivotStep root a) (pivotStart root a t)

end Bindings

/-- The beginning of `emulate_pivot_root`, up to its last return. -/
def pivotPaths (w : PathWorld) (c : DirfdCache) (newRootUser putOldUser : CStr) :
    Option (PivotRoot × Binding) :=
  match (translatePath w c none newRootUser true).1 with
  | .error _ => none
  | .ok newRootHost =>
    match guestCanonicalize w.toWorld newRootUser with
    | .error _ => none
    | .ok newRootGuest =>
      -- bubblewrap only detaches its construction tree here.
      if newRootUser = str "." ∧ putOldUser = str "." ∧ newRootGuest = str "/newroot" then none
      else
        match canonicalize w.toWorld putOldUser true
            (if IsAbsolute putOldUser then ['/'] else newRootGuest) with
        | .error _ => none
        | .ok putOldGuest =>
          match w.tracee.fs.bindings.getBinding .guest ['/'] with
          | none => none
          | some root => some (⟨chopFinality newRootHost, newRootGuest, putOldGuest⟩, root)

/-- `emulate_pivot_root`: the binding table it leaves. -/
def emulatePivotRoot (w : PathWorld) (c : DirfdCache) (newRootUser putOldUser : CStr) : Bindings :=
  match pivotPaths w c newRootUser putOldUser with
  | none => w.tracee.fs.bindings
  | some (a, root) => w.tracee.fs.bindings.pivotRoot root a

end NeoProot
