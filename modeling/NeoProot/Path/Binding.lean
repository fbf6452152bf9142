import NeoProot.Path.Compare
import Mathlib.Data.List.Sort

/-!
# The binding table

A table keeps its bindings in three ordered lists.  PENDING holds what the
command line asked for until the tracee starts; GUEST and HOST hold the live
bindings under their guest and their host path.  A binding that lands on the
guest path of another covers it: the covered binding leaves the lists and hangs
below the new one until that one is removed again.

A binding is a pointer in the source.  Here it carries its address, and a list
cursor is a position in its list.  The lookup cache of the source is rebuilt
from the GUEST list after every change of it, so `findBestPrefix` sorts the list
itself.

## Main definitions

* `Layer`, `Binding`, `Bindings` — a binding, with what it covers, and a table.
* `insortBinding`, `insortBinding2`, `insortBinding4` — insertion.
* `removeBindingFromAllLists`, `removeBindingAndRestoreCovered` — removal.
* `getBinding`, `substituteBinding`, `getRoot` — lookup.
-/

namespace NeoProot

/-- `enum Side`. -/
inductive Side
  | guest
  | host
  | pending
  deriving DecidableEq, Repr

/-- `BindingMountKind`. -/
inductive BindingMountKind
  | none
  | tmpfs
  | internal
  deriving DecidableEq, Repr

/-- The fields of one binding.  The length stored next to either path is always
its string length. -/
structure Layer where
  addr : ℕ
  host : CStr
  guest : CStr
  readonly : Bool
  sourceReadonly : Bool
  needSubstitution : Bool
  mountFlags : UInt64
  sourceMountFlags : UInt64
  mountKind : BindingMountKind
  deriving DecidableEq, Repr

/-- A binding together with the chain of layers below it: `binding->covered`,
then what that one covers, and so on. -/
structure Binding extends Layer where
  covered : List Layer
  deriving DecidableEq, Repr

/-- A binding table: its three lists and the next free address. -/
structure Bindings where
  pending : List Binding
  guest : List Binding
  host : List Binding
  fresh : ℕ
  deriving DecidableEq, Repr

namespace Binding

/-- The path a binding is listed under: `&binding->guest` or `&binding->host`. -/
def ref (b : Binding) : Side → CStr
  | .host => b.host
  | .guest | .pending => b.guest

/-- `binding->need_substitution`, as `insort_binding2` sets it. -/
def withSubstitution (b : Binding) : Binding :=
  { b with needSubstitution := comparePaths b.host b.guest ≠ .pathsAreEqual }

/-- The stores `copy_binding` and the mount calls make after an insertion. -/
def setAttributes (b : Binding) (readonly sourceReadonly : Bool)
    (mountFlags sourceMountFlags : UInt64) : Binding :=
  { b with
    readonly := readonly
    sourceReadonly := sourceReadonly
    mountFlags := mountFlags
    sourceMountFlags := sourceMountFlags }

/-- `binding->covered = iterator`. -/
def covering (b iterator : Binding) : Binding :=
  { b with covered := iterator.toLayer :: iterator.covered }

/-- The binding directly below `b`, with the rest of the chain: `b->covered`. -/
def coveredBinding (b : Binding) : Option Binding :=
  match b.covered with
  | [] => none
  | l :: ls => some { toLayer := l, covered := ls }

end Binding

namespace Bindings

/-- A table after `CIRCLEQ_INIT` on its three lists. -/
def empty : Bindings := ⟨[], [], [], 0⟩

/-- `HEAD(tracee, side)`. -/
def head (t : Bindings) : Side → List Binding
  | .pending => t.pending
  | .guest => t.guest
  | .host => t.host

/-- Replace one list of the table. -/
def setHead (t : Bindings) (side : Side) (l : List Binding) : Bindings :=
  match side with
  | .pending => { t with pending := l }
  | .guest => { t with guest := l }
  | .host => { t with host := l }

@[simp] theorem head_setHead (t : Bindings) (side : Side) (l : List Binding) :
    (t.setHead side l).head side = l := by
  cases side <;> rfl

theorem head_setHead_of_ne (t : Bindings) {side other : Side} (h : other ≠ side)
    (l : List Binding) : (t.setHead side l).head other = t.head other := by
  cases side <;> cases other <;> first | rfl | exact absurd rfl h

end Bindings

/-- Where the scan of `insort_binding` ends: on a duplicate that the new binding
replaces, or with its two cursors.  `next` starts on the first element, position
0, which therefore also means that no place was found. -/
inductive Scan
  | duplicate (iterator : ℕ)
  | place (prev : Option ℕ) (next : ℕ)
  deriving DecidableEq, Repr

/-- The loop of `insort_binding` from position `i` on. -/
def scan (side : Side) (path : CStr) : ℕ → Option ℕ → ℕ → List Binding → Scan
  | _, prev, next, [] => .place prev next
  | i, prev, next, iterator :: rest =>
    match comparePaths2 path (iterator.ref side) with
    | .pathsAreEqual => if side = .host then .place (some i) next else .duplicate i
    | .path1IsPrefix => scan side path (i + 1) (some i) next rest
    | .path2IsPrefix => scan side path (i + 1) prev (if next = 0 then i else next) rest
    | .pathsAreNotComparable => scan side path (i + 1) prev next rest

/-- Put `b` in front of position `i`. -/
def insertAt (i : ℕ) (b : Binding) (l : List Binding) : List Binding :=
  l.take i ++ b :: l.drop i

namespace Bindings

/-- `remove_binding_from_all_lists`. -/
def removeBindingFromAllLists (t : Bindings) (addr : ℕ) : Bindings :=
  { t with
    pending := t.pending.filter (·.addr ≠ addr)
    guest := t.guest.filter (·.addr ≠ addr)
    host := t.host.filter (·.addr ≠ addr) }

/-- `insort_binding`: the table and the binding as the call leaves them. -/
def insortBinding (t : Bindings) (side : Side) (binding : Binding) : Bindings × Binding :=
  let l := t.head side
  match scan side (binding.ref side) 0 none 0 l with
  | .duplicate i =>
    match l[i]? with
    | none => (t, binding)
    | some iterator =>
      -- Keep the covered layer alive after its list references are removed.
      let binding := binding.covering iterator
      ((t.setHead side (insertAt (i + 1) binding l)).removeBindingFromAllLists iterator.addr,
        binding)
  | .place (some i) _ => (t.setHead side (insertAt (i + 1) binding l), binding)
  | .place none next =>
    if next ≠ 0 then (t.setHead side (insertAt next binding l), binding)
    else (t.setHead side (insertAt 0 binding l), binding)

/-- `insort_binding2`. -/
def insortBinding2 (t : Bindings) (binding : Binding) : Bindings × Binding :=
  let (t, binding) := t.insortBinding .guest binding.withSubstitution
  t.insortBinding .host binding

/-- `remove_binding_and_restore_covered`. -/
def removeBindingAndRestoreCovered (t : Bindings) (binding : Binding) : Bindings :=
  let t := t.removeBindingFromAllLists binding.addr
  match binding.coveredBinding with
  | none => t
  | some covered => (t.insortBinding2 covered).1

/-- `talloc_zero(ctx, Binding)` with its two paths and its kind set. -/
def newLayer (t : Bindings) (host guest : CStr) (mountKind : BindingMountKind) : Binding :=
  { addr := t.fresh
    host := host
    guest := guest
    readonly := false
    sourceReadonly := false
    needSubstitution := false
    mountFlags := 0
    sourceMountFlags := 0
    mountKind := mountKind
    covered := [] }

/-- `insort_binding4`. -/
def insortBinding4 (t : Bindings) (host guest : CStr) (mountKind : BindingMountKind) :
    Bindings × Binding :=
  ({ t with fresh := t.fresh + 1 }).insortBinding2 (t.newLayer host guest mountKind)

/-- `insort_binding3`. -/
def insortBinding3 (t : Bindings) (host guest : CStr) : Bindings × Binding :=
  t.insortBinding4 host guest .none

/-- The end of `new_binding`: the sanitized paths enter the PENDING list. -/
def newBinding (t : Bindings) (host guest : CStr) : Bindings × Binding :=
  ({ t with fresh := t.fresh + 1 }).insortBinding .pending (t.newLayer host guest .none)

/-- Store through the pointer `addr` in every list that holds it. -/
def update (t : Bindings) (addr : ℕ) (f : Binding → Binding) : Bindings :=
  { t with
    pending := t.pending.map fun b => if b.addr = addr then f b else b
    guest := t.guest.map fun b => if b.addr = addr then f b else b
    host := t.host.map fun b => if b.addr = addr then f b else b }

/-- The bindings of the GUEST list as the lookup cache orders them: the longest
guest path first. -/
def cacheEntries (t : Bindings) : List Binding :=
  t.guest.insertionSort fun a b => b.guest.length ≤ a.guest.length

/-- The test `find_best_prefix` makes of each cache entry. -/
def matchesPrefix (path : CStr) (b : Binding) : Bool :=
  decide (b.guest.length ≤ path.length) && decide (b.guest[0]? = path[0]?) &&
    !(decide (1 < b.guest.length) && decide (b.guest.length < path.length) &&
      decide (path[b.guest.length]? ≠ some '/')) &&
    decide (path.take b.guest.length = b.guest)

/-- `find_best_prefix`. -/
def findBestPrefix (t : Bindings) (path : CStr) : Option Binding :=
  t.cacheEntries.find? (matchesPrefix path)

/-- The test the linear scan of `get_binding` makes. -/
def matchesRef (side : Side) (path : CStr) (b : Binding) : Bool :=
  match comparePaths2 (b.ref side) path with
  | .pathsAreEqual | .path1IsPrefix => true
  | _ => false

/-- `get_binding`. -/
def getBinding (t : Bindings) (side : Side) (path : CStr) : Option Binding :=
  if ¬ IsAbsolute path then none
  else
    match if side = .guest then t.findBestPrefix path else none with
    | some b => some b
    | none => (t.head side).find? (matchesRef side path)

/-- `get_root`. -/
def getRoot (t : Bindings) : Option CStr :=
  match if t.guest ≠ [] then t.guest.getLast? else t.pending.getLast? with
  | none => none
  | some binding =>
    if comparePaths binding.guest ['/'] ≠ .pathsAreEqual then none else some binding.host

end Bindings

/-- `substitute_path_prefix`: what the buffer holds afterwards, and the length
returned.  A result that does not fit leaves the buffer as it was. -/
def substitutePathPrefix (path : CStr) (oldPrefixLen : ℕ) (newPrefix : CStr) :
    CStr × Except Errno ℕ :=
  if newPrefix.length = 1 then
    let rest := path.drop oldPrefixLen
    let result := if path.length - oldPrefixLen = 0 then ['/'] else rest
    (result, .ok result.length)
  else if oldPrefixLen = 1 then
    let result := if path.length = 1 then newPrefix else newPrefix ++ path
    if pathMax ≤ result.length then (path, .error .enametoolong) else (result, .ok result.length)
  else
    let result := newPrefix ++ path.drop oldPrefixLen
    if pathMax ≤ result.length then (path, .error .enametoolong) else (result, .ok result.length)

namespace Bindings

/-- `substitute_binding`: whether the path was substituted, and the path.  The
length `substitute_path_prefix` returns is not looked at. -/
def substituteBinding (t : Bindings) (side : Side) (path : CStr) : Except Errno (Bool × CStr) :=
  match t.getBinding side path with
  | none => .error .enoent
  | some binding =>
    if ¬ binding.needSubstitution then .ok (false, path)
    else
      let (orig, repl) :=
        if side = .guest then (binding.guest, binding.host) else (binding.host, binding.guest)
      .ok (true, (substitutePathPrefix path orig.length repl).1)

end Bindings
end NeoProot
