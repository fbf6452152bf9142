import NeoProot.Extension.Link2symlink
import NeoProot.Lib.Memory
import NeoProot.Syscall.Exit

/-!
# The results of `readlink`

The kernel has put the host's target of a link into the buffer of the guest, as far as it fits.
The exit stage puts the guest's name of it there: of what the kernel gave, or of what it reads
again where that filled the buffer.  The links of `/proc` that name the program, the working
directory and open files have cases of their own, and a descriptor that the host does not know is
looked up among the remembered ones.

## Main definitions

* `Readlink` — a call, and what the tracer can ask about it.
* `Readlink.exit` — what the call returns and what it leaves in memory.
* `Readlink.target` — the name that the guest is to see, whatever the size of its buffer.
-/

namespace NeoProot

/-- `get_reported_cwd`. -/
def FileSystemNameSpace.getReportedCwd (fs : FileSystemNameSpace) : CStr :=
  match fs.cwdAliasPrefix with
  | none => fs.cwd
  | some cwdAlias =>
    if ¬ FileSystemNameSpace.startsWithAlias cwdAlias fs.cwd then fs.cwd
    else if fs.cwd.length = cwdAlias.length then ['/']
    else fs.cwd.drop cwdAlias.length

/-! ### Descriptors in names -/

/-- `parse_nonnegative_int`. -/
def parseNonnegativeInt (text : CStr) : Option ℤ :=
  if text = [] ∨ ¬ text.all Char.isDigit ∨ 2 ^ 31 ≤ decimalValue text then none
  else some (decimalValue text)

/-- `parse_proc_fd_reference`. -/
def parseProcFdReference (tracee : Tracee) (path : CStr) : Option ℤ :=
  let self := str "/proc/self/fd/"
  if self <+: path then parseNonnegativeInt (path.drop self.length)
  else
    match tracee.fs.cwdAliasPrefix.filter fun cwdAlias => cwdAlias ++ self <+: path with
    | some cwdAlias => parseNonnegativeInt (path.drop (cwdAlias ++ self).length)
    | none =>
      if ¬ str "/proc/" <+: path then none
      else
        let pidText := (path.drop 6).takeWhile (· ≠ '/')
        let behind := (path.drop 6).dropWhile (· ≠ '/')
        if str "/fd/" <+: behind ∧ parseNonnegativeInt pidText = some (tracee.pid : ℤ) then
          parseNonnegativeInt (behind.drop 4)
        else none

/-- The `int` that `%d` of `sscanf(3)` reads, and what follows it. -/
def scanInt (s : CStr) : Option (ℤ × CStr) :=
  let (negative, ds) := numberParts s
  let unsigned := match s.dropWhile isSpace with
    | '-' :: s | '+' :: s => s
    | s => s
  let value : ℤ :=
    if negative then max (-2 ^ 63) (-decimalValue ds) else min (2 ^ 63 - 1) (decimalValue ds)
  if ds = [] then none else some (value.bmod (2 ^ 32), unsigned.drop ds.length)

/-- `sscanf(referer, "/proc/self/fd/%d%c")` reads one number, which is not negative. -/
def scanSelfFd (referer : CStr) : Option ℤ :=
  let self := str "/proc/self/fd/"
  if ¬ self <+: referer then none
  else
    match scanInt (referer.drop self.length) with
    | some (fd, []) => if 0 ≤ fd then some fd else none
    | _ => none

/-- `sscanf(referer, "/proc/%d/fd/%d%c")` reads two numbers, and the second is not negative. -/
def scanPidFd (referer : CStr) : Option (ℤ × ℤ) :=
  if ¬ str "/proc/" <+: referer then none
  else
    match scanInt (referer.drop 6) with
    | none => none
    | some (pid, behind) =>
      if ¬ str "/fd/" <+: behind then none
      else
        match scanInt (behind.drop 4) with
        | some (fd, []) => if 0 ≤ fd then some (pid, fd) else none
        | _ => none

/-- The process and the descriptor of a link below `/proc` that is read again. -/
def rereadPidFd (tracee : Tracee) (referer : CStr) : Option (ℤ × ℤ) :=
  let self := str "/proc/self/fd/"
  let found : Option (ℤ × CStr) :=
    if self <+: referer then some (tracee.pid, referer.drop self.length)
    else
      match scanInt (referer.drop 6) with
      | some (pid, behind) => if str "/fd/" <+: behind then some (pid, behind.drop 4) else none
      | none => none
  match found with
  | none => none
  | some (pid, fdPart) =>
    ((strtolWhole fdPart).filter fun fd => 0 ≤ fd ∧ fd ≤ 0x7fffffff).map fun fd => (pid, fd)

/-! ### Calls -/

/-- A call of `readlink` or `readlinkat`. -/
structure Readlink where
  tracee : Tracee
  getTracee : ℤ → Option Tracee
  /-- The call is `readlinkat`. -/
  hasDirfd : Bool
  dirfd : UInt64
  /-- The size of the buffer. -/
  size : UInt64
  /-- The memory behind the start of the buffer, as the call finds it, and how much of it can be
  written. -/
  before : Memory Char
  room : ℕ
  /-- What the link is in the host. -/
  link : Except Errno CStr
  /-- `read_path`, of the name that the guest gave and of the one in its place. -/
  originalPath : Except Errno CStr
  modifiedPath : Except Errno CStr
  /-- `recall_proc_fd_path` of the tracee. -/
  recallProcFdPath : ℤ → Option CStr
  readlinkProcPidFd : ℤ → ℤ → Except Errno CStr
  /-- `readlink(2)` in the tracer. -/
  readlink : CStr → Except Errno CStr
  /-- `recall_fd` of link2symlink. -/
  recallFd : ℤ → ℤ → Option CStr
  /-- `resolve_faked_hard_link`. -/
  resolveFakedHardLink : CStr → Option CStr

namespace Readlink

/-- What the kernel makes of the call. -/
def kernel (c : Readlink) : Except Errno ℕ × Memory Char :=
  match c.link with
  | .error e => (.error e, c.before)
  | .ok host =>
    (.ok (min host.length c.size.toNat), Memory.overwrite c.before (host.take c.size.toNat))

/-- `write_data` behind the kernel, and the result of the call where it succeeds. -/
def writeData (c : Readlink) (data : CStr) (result : ℕ) : Except Errno ℕ × Memory Char :=
  if data.length ≤ c.room then (.ok result, Memory.overwrite c.kernel.2 data)
  else (.error .efault, c.kernel.2)

/-- `max_size`. -/
def maxSize (c : Readlink) : ℕ := min c.size.toNat pathMax

/-- The guest name of a descriptor that the host does not know, and what `detranslate_path`
returned for it. -/
def repaired (c : Readlink) : Option (ℕ × CStr) :=
  match c.modifiedPath, c.originalPath with
  | .ok failedRef, .ok originalRef =>
    match parseProcFdReference c.tracee originalRef with
    | none => none
    | some fd =>
      let failedTarget := match c.recallProcFdPath fd with
        | some remembered => some (remembered.take (pathMax - 1))
        | none => (c.readlinkProcPidFd c.tracee.pid fd).toOption
      failedTarget.bind fun failedTarget =>
        (detranslatePath c.tracee c.getTracee failedTarget (some failedRef)).toOption
  | _, _ => none

/-- The case of a call that fails in the kernel: `ENOENT` alone is repaired. -/
def exitFailed (c : Readlink) (e : Errno) : Except Errno ℕ × Memory Char :=
  if e ≠ .enoent ∨ c.maxSize = 0 then c.kernel
  else
    match c.repaired with
    | none => c.kernel
    | some (translatedLen, failedTarget) =>
      let len := if 0 < translatedLen then translatedLen - 1 else failedTarget.length
      let writeLen := min len c.maxSize
      match c.writeData (failedTarget.take writeLen) writeLen with
      | (.ok result, memory) => (.ok result, memory)
      | (.error _, _) => c.kernel

/-- The name of the link, and the process and the descriptor that it belongs to.  `dirfd` has no
sign in the source, so its test for a negative one never fires. -/
def referer (c : Readlink) : Except Errno (CStr × Option (ℤ × ℤ)) :=
  match c.modifiedPath with
  | .error e => .error e
  | .ok [] =>
    if ¬ c.hasDirfd then .error .ebadf
    else
      match c.readlinkProcPidFd c.tracee.pid (asInt c.dirfd) with
      | .error e => .error e
      | .ok path => .ok (path, some (c.tracee.pid, asInt c.dirfd))
  | .ok path =>
    if pathMax ≤ path.length + 1 then .error .enametoolong
    else
      match scanSelfFd path with
      | some fd => .ok (path, some (c.tracee.pid, fd))
      | none => .ok (path, scanPidFd path)

/-- The link of the own process with some name. -/
def isOwnLink (c : Readlink) (name referer : CStr) : Prop :=
  referer = str "/proc/self/" ++ name ∨ referer = procPath c.tracee.pid ++ '/' :: name

instance (c : Readlink) (name referer : CStr) : Decidable (c.isOwnLink name referer) :=
  inferInstanceAs (Decidable (_ ∨ _))

/-- The link is the program of the process; a tracee without one has an empty name. -/
def isExeLink (c : Readlink) (referer : CStr) : Prop :=
  c.tracee.exe ≠ [] ∧ c.isOwnLink (str "exe") referer

instance (c : Readlink) (referer : CStr) : Decidable (c.isExeLink referer) :=
  inferInstanceAs (Decidable (_ ∧ _))

/-- `READLINK_PROC_FD` of link2symlink: the name that a descriptor was opened by takes the place of
the name of a final file, if it still leads there. -/
def substituted (c : Readlink) (procFd : Option (ℤ × ℤ)) (hostPath : CStr) : Option CStr :=
  match procFd with
  | none => none
  | some (pid, fd) =>
    if fd < 0 ∨ ¬ Link2symlink.isL2sFile hostPath then none
    else
      (c.recallFd pid fd).filter fun link => c.resolveFakedHardLink link = some hostPath

/-- The guest name of a host path that the kernel reported, and what is returned for it; nothing
where it is left as it is. -/
def guestName (c : Readlink) (referer : CStr) (procFd : Option (ℤ × ℤ)) (referee : CStr) :
    Except Errno (Option (ℕ × CStr)) :=
  let link := c.substituted procFd referee
  match detranslatePath c.tracee c.getTracee (link.getD referee) (some referer) with
  | .error e => .error e
  | .ok (0, path) => .ok (if link.isNone then none else some (path.length + 1, path))
  | .ok (n, path) => .ok (some (n, path))

/-- The link is read again, behind a result that fills the buffer. -/
def reread (c : Readlink) (referer : CStr) : Option CStr :=
  if str "/proc/" <+: referer then
    match rereadPidFd c.tracee referer with
    | none => none
    | some (pid, fd) => (c.readlinkProcPidFd pid fd).toOption
  else if IsAbsolute referer then
    (c.readlink referer).toOption.map fun full => full.take (pathMax - 1)
  else none

/-- The guest name of the link that is read again, with its length. -/
def fullName (c : Readlink) (referer : CStr) : Option (ℕ × CStr) :=
  (c.reread referer).bind fun full =>
    match detranslatePath c.tracee c.getTracee full (some referer) with
    | .error _ | .ok (0, _) => none
    | .ok (n + 1, full) => some (n, full)

/-- The label `write_back`; `status` counts the terminator. -/
def writeBack (c : Readlink) (status : ℕ) (referee : CStr) : Except Errno ℕ × Memory Char :=
  if status < c.maxSize then c.writeData ((referee ++ ['\x00']).take status) (status - 1)
  else c.writeData ((referee ++ ['\x00']).take c.maxSize) c.maxSize

/-- The re-read name is put into the buffer. -/
def writeFull (c : Readlink) (fullLen : ℕ) (full : CStr) : Except Errno ℕ × Memory Char :=
  if fullLen + 1 ≤ c.maxSize then c.writeData ((full ++ ['\x00']).take (fullLen + 1)) fullLen
  else c.writeData (full.take c.maxSize) c.maxSize

/-- The case of a call that succeeds in the kernel.  What it left in the buffer is the beginning of
the link. -/
def exitSucceeded (c : Readlink) (host : CStr) : Except Errno ℕ × Memory Char :=
  let referee := host.take c.size.toNat
  if c.maxSize = 0 then (.error .einval, c.kernel.2)
  else
    match c.referer with
    | .error e => (.error e, c.kernel.2)
    | .ok (referer, procFd) =>
      if c.isExeLink referer then
        if pathMax < c.tracee.exe.length + 1 then (.error .enametoolong, c.kernel.2)
        else c.writeBack (c.tracee.exe.length + 1) c.tracee.exe
      else if c.isOwnLink (str "cwd") referer then
        let reportedCwd := c.tracee.fs.getReportedCwd
        if pathMax ≤ reportedCwd.length then (.error .enametoolong, c.kernel.2)
        else
          let writeSize := min reportedCwd.length c.maxSize
          c.writeData (reportedCwd.take writeSize) writeSize
      else
        match if referee.length = c.maxSize then c.fullName referer else none with
        | some (fullLen, full) => c.writeFull fullLen full
        | none =>
          match c.guestName referer procFd referee with
          | .error e => (.error e, c.kernel.2)
          | .ok none => c.kernel
          | .ok (some (status, referee)) => c.writeBack status referee

/-- What the call returns, and the memory that it leaves. -/
def exit (c : Readlink) : Except Errno ℕ × Memory Char :=
  match c.link with
  | .error e => c.exitFailed e
  | .ok host => c.exitSucceeded host

/-! ### What the guest is to see -/

/-- The target of the link for the guest, if it has one. -/
def target (c : Readlink) : Option CStr :=
  match c.link with
  | .error e => if e = .enoent then c.repaired.map (·.2) else none
  | .ok host =>
    match c.referer with
    | .error _ => none
    | .ok (referer, procFd) =>
      if c.isExeLink referer then some c.tracee.exe
      else if c.isOwnLink (str "cwd") referer then some c.tracee.fs.getReportedCwd
      else
        match c.guestName referer procFd host with
        | .error _ => none
        | .ok none => some host
        | .ok (some (_, path)) => some path

/-- A buffer holds exactly the beginning of a target that fits it. -/
structure Exact (c : Readlink) (target : CStr) : Prop where
  length : c.exit.1 = .ok (min target.length c.size.toNat)
  content : ∀ i, i < min target.length c.size.toNat → some (c.exit.2 i) = target[i]?
  beyond : ∀ i, c.size.toNat ≤ i → c.exit.2 i = c.before i
  whole : target.length < c.size.toNat → c.exit.2.read target.length = target

end Readlink

end NeoProot
