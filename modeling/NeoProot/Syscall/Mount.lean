import NeoProot.Syscall.PivotRoot
import Mathlib.Algebra.Ring.Int.Defs
import Mathlib.Algebra.Ring.Nat

/-!
# `mount` and `umount`

`emulate_mount` turns a mount into a binding: it finds the host path of the source, the
guest path of the target, and the flags the new binding takes over from its source.  A
recursive bind also copies the bindings below its source.  `emulate_umount` removes the
binding again and puts back what it covered.

What the calls do to the alias of an old root and to the working directory is not about
the table and stays outside.

## Main definitions

* `MountWorld` — the surroundings of a call.
* `mountRequest` — what a call asks of the table.
* `Bindings.mount`, `Bindings.umount` — what it does to the table.
* `emulateMount`, `emulateUmount` — the calls.
-/

namespace NeoProot

/-- The surroundings of a call: what is remembered of the descriptors of the tracee, and
the directory a new `tmpfs` gets. -/
structure MountWorld extends PathWorld where
  recallProcFdPath : ℤ → Option CStr
  recallProcFdBinding : ℤ → Option Binding
  recallProcFdMountAttributes : ℤ → Option (Bool × UInt64)
  createTempDirectory : Option CStr

def msRemount : UInt64 := 32
def msBind : UInt64 := 4096
def msRec : UInt64 := 16384

/-! ### Paths of the source and the target -/

/-- `strtol(3)` in base 10, with what stands behind the number. -/
def strtol (s : CStr) : Option (ℤ × CStr) :=
  let (negative, ds) := numberParts s
  let unsigned := match s.dropWhile isSpace with
    | '-' :: s | '+' :: s => s
    | s => s
  if ds = [] then none
  else
    some (if negative then max (-2 ^ 63) (-decimalValue ds) else min (2 ^ 63 - 1) (decimalValue ds),
      unsigned.drop ds.length)

/-- `parse_tracee_proc_fd`. -/
def parseTraceeProcFd (tracee : Tracee) (path : CStr) : Option ℤ :=
  let number :=
    if path.take 14 = str "/proc/self/fd/" then some (path.drop 14)
    else if path.take 6 = str "/proc/" then
      match strtol (path.drop 6) with
      | none => none
      | some (pid, rest) =>
        if pid ≠ tracee.pid ∨ rest.take 4 ≠ str "/fd/" then none else some (rest.drop 4)
    else none
  (number.bind strtolWhole).filter fun value => decide (0 ≤ value) && decide (value ≤ 2147483647)

/-- `resolve_tracee_proc_fd`. -/
def resolveTraceeProcFd (w : PathWorld) (path : CStr) : Option CStr :=
  match parseTraceeProcFd w.tracee path with
  | none => none
  | some fd =>
    match readlinkProcPidFd w fd with
    | .error _ => none
    | .ok hostPath => some hostPath

/-- `guest_path_is_oldroot`. -/
def guestPathIsOldroot (path : CStr) : Bool := path.take 9 = str "/oldroot/"

/-- `guest_paths_same_current_root`. -/
def guestPathsSameCurrentRoot (fs : FileSystemNameSpace) (left right : CStr) : Bool :=
  if comparePaths left right = .pathsAreEqual then true
  else if fs.cwdAliasPrefix ≠ some (str "/oldroot") then false
  else if guestPathIsOldroot left ∧ comparePaths (left.drop 8) right = .pathsAreEqual then true
  else guestPathIsOldroot right && decide (comparePaths left (right.drop 8) = .pathsAreEqual)

/-- `detranslate_mount_target_in_current_root`. -/
def detranslateMountTargetInCurrentRoot (t : Bindings) (hostPath : CStr) : Option CStr :=
  match t.getRoot with
  | none => none
  | some root =>
    if comparePaths root hostPath ≠ .path1IsPrefix ∧ comparePaths root hostPath ≠ .pathsAreEqual then
      none
    else
      let suffix := hostPath.drop (if root.length = 1 then 0 else root.length)
      let suffix := if suffix = [] then ['/'] else suffix
      if pathMax ≤ suffix.length then none else some suffix

/-- `collapse_oldroot_tmpfs_target`: the path it leaves. -/
def collapseOldrootTmpfsTarget (fstype guestPath : CStr) : CStr :=
  if fstype ≠ str "tmpfs" ∨ ¬ guestPathIsOldroot guestPath then guestPath else guestPath.drop 8

/-! ### The source -/

/-- What `emulate_mount` knows of the source of a mount. -/
structure MountSource where
  hostPath : CStr
  mountKind : BindingMountKind
  /-- `source_fd`, where `fd_source`. -/
  fd : Option ℤ
  /-- `source_guest`, where `source_guest_valid`. -/
  guest : Option CStr
  binding : Option Binding
  readonly : Bool
  mountFlags : UInt64
  deriving DecidableEq, Repr

/-- A source that is no path of the guest. -/
def MountSource.plain (hostPath : CStr) (mountKind : BindingMountKind) : MountSource :=
  ⟨hostPath, mountKind, none, none, none, false, 0⟩

/-- The binding of a source that is a descriptor. -/
def fdSourceBinding (w : MountWorld) (fd : ℤ) (hostPath : CStr) : Option Binding :=
  let t := w.tracee.fs.bindings
  let remembered := w.recallProcFdPath fd
  let sourceBinding := w.recallProcFdBinding fd
  let sourceBinding :=
    match remembered with
    | none => sourceBinding
    | some path =>
      if guestPathIsOldroot path ∧ w.tracee.fs.cwdAliasPrefix = some (str "/oldroot") then
        match t.getBinding .guest (path.drop 8) with
        | none => sourceBinding
        | some currentBinding => some currentBinding
      else sourceBinding
  let sourceBinding :=
    match sourceBinding, remembered with
    | none, some path =>
      match t.substituteBinding .guest path with
      | .error _ => none
      | .ok (_, rememberedHost) =>
        if rememberedHost = hostPath then t.getBinding .guest path else none
    | _, _ => sourceBinding
  match sourceBinding with
  | none => t.getBinding .host hostPath
  | some binding => some binding

/-- `source_uses_origin`, before the target is known. -/
def usesOrigin (t : Bindings) (sourceBinding : Binding) : Bool :=
  match t.getRoot with
  | none => false
  | some rootHost => decide (comparePaths rootHost sourceBinding.host = .pathsAreNotComparable)

/-- The flags that a binding hands on to a mount of it. -/
def sourceAttributes (t : Bindings) : Option Binding → Bool × UInt64
  | none => (false, 0)
  | some b =>
    if usesOrigin t b then (b.sourceReadonly, b.sourceMountFlags) else (b.readonly, b.mountFlags)

/-- The source of a bind mount. -/
def bindSource (w : MountWorld) (c : DirfdCache) (srcUser : CStr) : Option MountSource :=
  let t := w.tracee.fs.bindings
  let hostPath :=
    match resolveTraceeProcFd w.toPathWorld srcUser with
    | some hostPath => some hostPath
    | none =>
      match (translatePath w.toPathWorld c none srcUser true).1 with
      | .error _ => none
      | .ok hostPath => some hostPath
  match hostPath with
  | none => none
  | some hostPath =>
    match parseTraceeProcFd w.tracee srcUser with
    | some fd =>
      let binding := fdSourceBinding w fd hostPath
      let (readonly, mountFlags) :=
        (w.recallProcFdMountAttributes fd).getD (sourceAttributes t binding)
      some ⟨hostPath, .none, some fd, none, binding, readonly, mountFlags⟩
    | none =>
      let guest :=
        match guestCanonicalize w.toWorld srcUser with
        | .error _ => none
        | .ok guest => some guest
      let binding := guest.bind (t.getBinding .guest)
      let (readonly, mountFlags) := sourceAttributes t binding
      some ⟨hostPath, .none, none, guest, binding, readonly, mountFlags⟩

/-- `while (host_len > 1 && host_path[host_len - 1] == '/')`. -/
def stripSlashes (path : CStr) : CStr :=
  path.take 1 ++ ((path.drop 1).reverse.dropWhile (· = '/')).reverse

/-- The source of a mount. -/
def mountSource (w : MountWorld) (c : DirfdCache) (srcUser fstype : CStr) (flags : UInt64) :
    Option MountSource :=
  let source :=
    if flags &&& msBind ≠ 0 then bindSource w c srcUser
    else if fstype = str "proc" then some (.plain (str "/proc") .none)
    else if fstype = str "sysfs" then some (.plain (str "/sys") .none)
    else if fstype = str "devtmpfs" then some (.plain (str "/dev") .none)
    else if fstype = str "devpts" then some (.plain (str "/dev/pts") .none)
    else if fstype = str "tmpfs" then
      w.createTempDirectory.map fun tmpdir => .plain (tmpdir.take (pathMax - 1)) .tmpfs
    else none
  source.map fun s => { s with hostPath := stripSlashes (chopFinality s.hostPath) }

/-! ### The target -/

/-- The guest path of the target of a mount. -/
def mountTarget (w : MountWorld) (targetUser fstype : CStr) : Option CStr :=
  match resolveTraceeProcFd w.toPathWorld targetUser with
  | some path =>
    let path := chopFinality path
    match detranslateMountTargetInCurrentRoot w.tracee.fs.bindings path with
    | some guestPath => some guestPath
    | none =>
      match detranslatePath w.tracee w.getTracee path none with
      | .error _ => none
      | .ok (_, guestPath) => some (collapseOldrootTmpfsTarget fstype guestPath)
  | none =>
    match guestCanonicalize w.toWorld targetUser with
    | .error _ => none
    | .ok guestPath => some guestPath

/-- The `tmpfs` on a guest path, or below what covers it: `tmpfs_binding`. -/
def tmpfsLayer (t : Bindings) (guestPath : CStr) : Option Layer :=
  let layers :=
    match t.guest.find? fun b => decide (b.guest = guestPath) with
    | some b => b.toLayer :: b.covered
    | none =>
      match t.getBinding .guest guestPath with
      | some b => (b.toLayer :: b.covered).dropWhile fun l => decide (l.guest ≠ guestPath)
      | none => []
  layers.find? fun l => decide (l.mountKind = .tmpfs)

/-- The flags of the new binding, where the target has a say in them. -/
def mountAttributes (w : MountWorld) (s : MountSource) (guestPath : CStr) : Bool × UInt64 :=
  let fs := w.tracee.fs
  let t := fs.bindings
  let remembered := s.fd.bind w.recallProcFdPath
  let sameGuest := s.guest.any fun guest => guestPathsSameCurrentRoot fs guest guestPath
  let attributes :=
    match tmpfsLayer t guestPath with
    | none => (s.readonly, s.mountFlags)
    | some l => if sameGuest then (l.sourceReadonly, l.sourceMountFlags) else (s.readonly, s.mountFlags)
  let sourceTargetSame := sameGuest ||
    remembered.any fun path =>
      guestPathsSameCurrentRoot fs path guestPath ||
        match guestCanonicalize w.toWorld path with
        | .error _ => false
        | .ok rememberedGuest => guestPathsSameCurrentRoot fs rememberedGuest guestPath
  let attributes :=
    if sourceTargetSame then
      match s.binding.or (t.getBinding .guest guestPath) with
      | none => attributes
      | some provenance => (provenance.sourceReadonly, provenance.sourceMountFlags)
    else attributes
  if guestPath = str "/tmp" ∧
      remembered.any (fun path => decide (comparePaths path guestPath = .pathsAreEqual)) ∧
      t.getRoot.any (fun root => decide ((root ++ str "/tmp").take (pathMax - 1) = s.hostPath)) then
    (false, 0)
  else attributes

/-! ### Recursive binds -/

/-- `RecursiveBinding`. -/
structure RecursiveBinding where
  hostPath : CStr
  guestSuffix : CStr
  mountKind : BindingMountKind
  readonly : Bool
  sourceReadonly : Bool
  mountFlags : UInt64
  sourceMountFlags : UInt64
  deriving DecidableEq, Repr

/-- `snapshot_recursive_bindings`. -/
def snapshotRecursiveBindings (tracee : Tracee) (getTracee : ℤ → Option Tracee)
    (sourceHost : CStr) : List RecursiveBinding :=
  match detranslatePath tracee getTracee (sourceHost.take (pathMax - 1)) none with
  | .error _ => []
  | .ok (_, sourceGuest) =>
    let sourceGuest := chopFinality sourceGuest
    let nested := tracee.fs.bindings.guest.filter fun b =>
      decide (comparePaths sourceGuest b.guest = .path1IsPrefix)
    nested.map fun b =>
      { hostPath := b.host
        guestSuffix := if sourceGuest.length = 1 then b.guest else b.guest.drop sourceGuest.length
        mountKind := b.mountKind
        readonly := b.readonly
        sourceReadonly := b.sourceReadonly
        mountFlags := b.mountFlags
        sourceMountFlags := b.sourceMountFlags }

namespace Bindings

/-- One round of `replay_recursive_bindings`. -/
def replay (targetGuest : CStr) (t : Bindings) (r : RecursiveBinding) : Bindings :=
  match joinPaths targetGuest r.guestSuffix with
  | .error _ => t
  | .ok guestPath =>
    let (t, binding) := t.insortBinding4 r.hostPath guestPath r.mountKind
    t.update binding.addr
      (·.setAttributes r.readonly r.sourceReadonly r.mountFlags r.sourceMountFlags)

end Bindings

/-! ### The calls -/

/-- What a mount asks of the table. -/
structure MountRequest where
  host : CStr
  guest : CStr
  mountKind : BindingMountKind
  readonly : Bool
  mountFlags : UInt64
  nested : List RecursiveBinding
  deriving DecidableEq, Repr

/-- `emulate_mount`, up to the insertion. -/
def mountRequest (w : MountWorld) (c : DirfdCache) (srcUser targetUser fstype : CStr)
    (flags : UInt64) : Option MountRequest :=
  if flags &&& msRemount ≠ 0 then none
  else
    match mountSource w c srcUser fstype flags with
    | none => none
    | some s =>
      match mountTarget w targetUser fstype with
      | none => none
      | some guestPath =>
        let (readonly, mountFlags) := mountAttributes w s guestPath
        some
          { host := s.hostPath
            guest := guestPath
            mountKind := s.mountKind
            readonly := readonly
            mountFlags := mountFlags
            nested :=
              if flags &&& (msBind ||| msRec) = msBind ||| msRec then
                snapshotRecursiveBindings w.tracee w.getTracee s.hostPath
              else [] }

namespace Bindings

/-- The new binding, with its flags. -/
def mountOver (t : Bindings) (r : MountRequest) : Bindings :=
  let (t, binding) := t.insortBinding4 r.host r.guest r.mountKind
  t.update binding.addr (·.setAttributes r.readonly r.readonly r.mountFlags r.mountFlags)

/-- The insertion that ends `emulate_mount`, and the copies of a recursive bind. -/
def mount (t : Bindings) (r : MountRequest) : Bindings :=
  r.nested.foldl (replay r.guest) (t.mountOver r)

/-- `emulate_umount` behind the resolution of its target. -/
def umount (t : Bindings) (guestPath : CStr) : Bindings :=
  if guestPath = ['/'] then t
  else
    match t.getBinding .guest guestPath with
    | none => t
    | some binding =>
      if binding.guest ≠ guestPath then t else t.removeBindingAndRestoreCovered binding

end Bindings

/-- `emulate_mount`: the binding table it leaves. -/
def emulateMount (w : MountWorld) (c : DirfdCache) (srcUser targetUser fstype : CStr)
    (flags : UInt64) : Bindings :=
  match mountRequest w c srcUser targetUser fstype flags with
  | none => w.tracee.fs.bindings
  | some r => w.tracee.fs.bindings.mount r

/-- `emulate_umount`: the binding table it leaves. -/
def emulateUmount (w : MountWorld) (targetUser : CStr) : Bindings :=
  match guestCanonicalize w.toWorld targetUser with
  | .error _ => w.tracee.fs.bindings
  | .ok guestPath => w.tracee.fs.bindings.umount guestPath

/-- Surroundings in which every name is a directory and nothing is remembered of any
descriptor. -/
def directoryWorld (ops : List Op) : MountWorld where
  tracee := traceeAfter ops
  getTracee := fun _ => none
  maxSymlinks := 40
  lstat := fun _ => .ok .directory
  readlink := fun _ => .error .einval
  notifyHostPath := id
  shouldSkipFileAccessDueToF2fsBug := fun _ => false
  unset := fun _ => .other
  notifyTranslatedPath := id
  procMapFile := fun _ => .error .enoent
  recallProcFdPath := fun _ => none
  recallProcFdBinding := fun _ => none
  recallProcFdMountAttributes := fun _ => none
  createTempDirectory := some (str "/tmp/proot-tmpfs")

end NeoProot
