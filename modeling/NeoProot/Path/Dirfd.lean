import Mathlib.Algebra.Ring.Int.Defs
import NeoProot.Path.Resolve

/-!
# Translation of a path, and the directory descriptor cache

A path relative to a directory descriptor starts at the guest name of the
directory.  Finding that name takes a `readlink` and a `detranslate_path`, and
resolving the path from there walks the name again.  `translate_path` keeps the
names it has found in a cache of all tracees, and answers for a single component
from the cache alone.

## Main definitions

* `DirfdCache` — the cache, with its lookup and the calls that keep it up to date.
* `tryDirfdComponentFast` — the answer from the cache.
* `translatePath` — the translation.
-/

namespace NeoProot

/-- The surroundings of a call to `translate_path`. -/
structure PathWorld extends World where
  /-- `notify_extensions(TRANSLATED_PATH)`: the extensions that listen rewrite the
  path at most. -/
  notifyTranslatedPath : CStr → CStr
  /-- The temporary file that stands for one of the map files of `/proc`. -/
  procMapFile : CStr → Except Errno CStr

/-- One entry of the cache.  Its host descriptor serves `fstatat` only. -/
structure DirfdSlot where
  pid : ℕ
  fd : ℤ
  procPath : CStr
  guestDir : CStr
  deriving DecidableEq, Repr

/-- `DIRFD_CACHE_SIZE`. -/
def dirfdCacheSize : ℕ := 64

/-- The cache, the entry found last and the entry to be used next. -/
structure DirfdCache where
  slots : List DirfdSlot
  last : Option ℕ
  next : ℕ
  deriving DecidableEq, Repr

namespace DirfdCache

/-- An unused entry. -/
def unused : DirfdSlot := ⟨0, -1, [], []⟩

/-- `dirfd_cache_init`. -/
def init : DirfdCache := ⟨List.replicate dirfdCacheSize unused, none, 0⟩

/-- The test `dirfd_cache_slot` makes of an entry. -/
def holds (c : DirfdCache) (pid : ℕ) (fd : ℤ) (index : ℕ) : Bool :=
  c.slots[index]?.any fun slot => slot.pid = pid && slot.fd = fd

/-- `dirfd_cache_slot`. -/
def slot (c : DirfdCache) (pid : ℕ) (fd : ℤ) : Option ℕ × DirfdCache :=
  if fd < 0 then (none, c)
  else if c.last.any (c.holds pid fd) then (c.last, c)
  else
    match (List.range dirfdCacheSize).find? (c.holds pid fd) with
    | none => (none, c)
    | some index => (some index, { c with last := some index })

/-- `forget_translated_dirfd`. -/
def forget (c : DirfdCache) (pid : ℕ) (fd : ℤ) : DirfdCache :=
  match c.slot pid fd with
  | (none, c) => c
  | (some slot, c) =>
    { c with
      slots := c.slots.set slot unused
      last := if c.last = some slot then none else c.last }

/-- The loops over all entries of a tracee: `p` says which descriptors are meant. -/
def forgetWhere (c : DirfdCache) (pid : ℕ) (p : ℤ → Bool) : DirfdCache :=
  (List.range dirfdCacheSize).foldl (fun c index =>
    match c.slots[index]? with
    | some slot => if slot.pid = pid ∧ p slot.fd then c.forget pid slot.fd else c
    | none => c) c

/-- `forget_translated_dirfds_range`. -/
def forgetRange (c : DirfdCache) (pid first last : ℕ) : DirfdCache :=
  c.forgetWhere pid fun fd => 0 ≤ fd && (first : ℤ) ≤ fd && fd ≤ last

/-- `clear_translated_dirfds`. -/
def clear (c : DirfdCache) (pid : ℕ) : DirfdCache := c.forgetWhere pid fun _ => true

/-- `remember_translated_dirfd`. -/
def remember (c : DirfdCache) (pid : ℕ) (fd : ℤ) (procPath guestDir : CStr) : DirfdCache :=
  if fd < 0 ∨ ¬ IsAbsolute procPath ∨ ¬ IsAbsolute guestDir then c
  else
    let new : DirfdSlot := ⟨pid, fd, procPath.take (pathMax - 1), guestDir.take (pathMax - 1)⟩
    match c.slot pid fd with
    | (some slot, c) =>
      if c.slots[slot]?.any fun s => s.procPath = procPath && s.guestDir = guestDir then c
      else { c with slots := c.slots.set slot new }
    | (none, c) =>
      { c with slots := c.slots.set c.next new, next := (c.next + 1) % dirfdCacheSize }

/-- `copy_translated_dirfd`. -/
def copy (c : DirfdCache) (pid : ℕ) (sourceFd targetFd : ℤ) : DirfdCache :=
  match c.slot pid sourceFd with
  | (none, c) => c.forget pid targetFd
  | (some slot, c) =>
    match c.slots[slot]? with
    | none => c
    | some s => c.remember pid targetFd s.procPath s.guestDir

/-- `inherit_translated_dirfds`. -/
def inherit (c : DirfdCache) (parentPid childPid : ℕ) : DirfdCache :=
  (List.range dirfdCacheSize).foldl (fun c index =>
    match c.slots[index]? with
    | some s => if s.pid = parentPid then c.remember childPid s.fd s.procPath s.guestDir else c
    | none => c) (c.clear childPid)

end DirfdCache

/-- `is_single_path_component`. -/
def isSinglePathComponent (path : CStr) : Bool :=
  decide (path ≠ []) && decide (¬ IsAbsolute path) && decide (path ≠ str ".") &&
    decide (path ≠ str "..") && !(str ".l2s.").isPrefixOf path &&
    !(str ".proot.l2s.").isPrefixOf path && decide ('/' ∉ path)

/-- `proc_path_after_alias`. -/
def procPathAfterAlias (fs : FileSystemNameSpace) (path : CStr) : Option CStr :=
  match fs.cwdAliasPrefix with
  | none => none
  | some cwdAlias =>
    if cwdAlias.length = 0 ∨ ¬ cwdAlias <+: path ∨ path[cwdAlias.length]? ≠ some '/' then none
    else if IsProcPath (path.drop cwdAlias.length) then some (path.drop cwdAlias.length)
    else none

/-- `readlink_proc_pid_fd`. -/
def readlinkProcPidFd (w : PathWorld) (fd : ℤ) : Except Errno CStr :=
  match w.readlink (procPath w.tracee.pid ++ str "/fd/" ++ str (toString fd)) with
  | .error _ => .error .ebadf
  | .ok path => if pathMax ≤ path.length then .error .enametoolong else .ok path

/-- The number that `strtol(3)` reads if it reads the whole string. -/
def strtolWhole (s : CStr) : Option ℤ :=
  let (negative, ds) := numberParts s
  let unsigned := match s.dropWhile isSpace with
    | '-' :: s | '+' :: s => s
    | s => s
  if ds = [] ∨ ds ≠ unsigned then none
  else some (if negative then max (-2 ^ 63) (-decimalValue ds) else min (2 ^ 63 - 1) (decimalValue ds))

/-- `proc_map_slot`: which of the map files of the tracee the path names. -/
def procMapSlot (tracee : Tracee) (path : CStr) : Option CStr :=
  let self := str "/proc/self/"
  let pid := procPath tracee.pid ++ ['/']
  let entry :=
    if self <+: path then some (path.drop self.length)
    else if pid <+: path then some (path.drop pid.length)
    else none
  entry.filter fun e => e = str "uid_map" || e = str "gid_map" || e = str "setgroups"

/-- `translate_proc_passthrough`. -/
def translateProcPassthrough (w : PathWorld) (path : CStr) : Except Errno CStr :=
  let t := w.tracee.fs.bindings
  let translated (result : CStr) : Except Errno CStr := .ok (w.notifyTranslatedPath result)
  -- A specific binding must retain precedence over proc compatibility handling.
  if (t.getBinding .guest path).any fun b => IsProcPath b.guest && b.guest ≠ str "/proc" then
    match t.substituteBinding .guest (path.take (pathMax - 1)) with
    | .error e => .error e
    | .ok (_, result) => translated result
  else if path = str "/proc/self/mountinfo" ∨ path = str "/proc/thread-self/mountinfo" then
    translated (procPath w.tracee.pid ++ str "/mountinfo")
  else
    let fd := if path.take 14 = str "/proc/self/fd/" then strtolWhole (path.drop 14) else none
    match fd.filter (0 ≤ ·) with
    | some n => translated (procPath w.tracee.pid ++ str "/fd/" ++ str (toString n))
    | none =>
      match procMapSlot w.tracee path with
      | some entry =>
        match w.procMapFile entry with
        | .error e => .error e
        | .ok tmp => if pathMax ≤ tmp.length then .error .enametoolong else translated tmp
      | none => translated (path.take (pathMax - 1))

/-- How `try_dirfd_component_fast` returns: with the translation, or not, and then
with what it has left in the result buffer. -/
inductive FastResult
  | translated (result : CStr)
  | failed (result : CStr)
  deriving DecidableEq, Repr

/-- `try_dirfd_component_fast`.  No extension that listens to GUEST_PATH answers
anything but 0 or touches the path for one component. -/
def tryDirfdComponentFast (w : PathWorld) (c : DirfdCache) (dirFd : ℤ) (userPath procPath : CStr) :
    FastResult × DirfdCache :=
  let t := w.tracee.fs.bindings
  match c.slot w.tracee.pid dirFd with
  | (none, c) => (.failed procPath, c)
  | (some slot, c) =>
    match c.slots[slot]? with
    | none => (.failed procPath, c)
    | some s =>
      if s.procPath ≠ procPath then (.failed procPath, c)
      else
        match joinPaths s.guestDir userPath with
        | .error _ => (.failed procPath, c)
        | .ok guestFull =>
          if (t.getBinding .guest guestFull).map (·.addr) ≠
              (t.getBinding .guest s.guestDir).map (·.addr) then
            (.failed procPath, c)
          else if w.shouldSkipFileAccessDueToF2fsBug s.guestDir then (.failed procPath, c)
          else if IsProcPath guestFull ∨ (procPathAfterAlias w.tracee.fs guestFull).isSome then
            -- The result buffer already holds the guest path here.
            (.failed guestFull, c)
          else
            match t.substituteBinding .guest guestFull with
            | .error _ => (.failed guestFull, c)
            | .ok (_, result) => (.translated (w.notifyTranslatedPath result), c)

/-- `translate_path` behind the choice of the base directory.  The one positive answer
to GUEST_PATH is for `/proc/sysvipc/shm`, and that path does not come here. -/
def translateFrom (w : PathWorld) (base userPath : CStr) (derefFinal : Bool) : Except Errno CStr :=
  match joinPaths base userPath with
  | .error e => .error e
  | .ok guestPath =>
    if IsProcPath guestPath then translateProcPassthrough w guestPath
    else
      match procPathAfterAlias w.tracee.fs guestPath with
      | some procPath => translateProcPassthrough w procPath
      | none =>
        match canonicalize w.toWorld guestPath derefFinal base with
        | .error e => .error e
        | .ok result =>
          match w.tracee.fs.bindings.substituteBinding .guest result with
          | .error e => .error e
          | .ok (_, result) => .ok (w.notifyTranslatedPath result)

/-- `translate_path`.  No descriptor means `AT_FDCWD`. -/
def translatePath (w : PathWorld) (c : DirfdCache) (dirFd : Option ℤ) (userPath : CStr)
    (derefFinal : Bool) : Except Errno CStr × DirfdCache :=
  if IsProcPath userPath then (translateProcPassthrough w userPath, c)
  else
    match procPathAfterAlias w.tracee.fs userPath with
    | some procPath => (translateProcPassthrough w procPath, c)
    | none =>
      if IsAbsolute userPath then (translateFrom w ['/'] userPath derefFinal, c)
      else
        match dirFd with
        | none =>
          if pathMax ≤ w.tracee.fs.cwd.length then (.error .enametoolong, c)
          else (translateFrom w w.tracee.fs.cwd userPath derefFinal, c)
        | some fd =>
          match readlinkProcPidFd w fd with
          | .error e => (.error e, c)
          | .ok result =>
            if ¬ IsAbsolute result then (.error .enotdir, c)
            else if result = str "/proc" then (translateFrom w result userPath derefFinal, c)
            else
              let (fast, c) :=
                if ¬ derefFinal ∧ isSinglePathComponent userPath then
                  tryDirfdComponentFast w c fd userPath result
                else (.failed result, c)
              match fast with
              | .translated result => (.ok result, c)
              | .failed result =>
                match detranslatePath w.tracee w.getTracee result none with
                | .error e => (.error e, c)
                | .ok (_, guestDir) =>
                  (translateFrom w guestDir userPath derefFinal,
                    c.remember w.tracee.pid fd result guestDir)

end NeoProot
