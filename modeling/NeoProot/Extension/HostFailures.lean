import NeoProot.Extension.FamilyNames

/-!
# Links on a host that fails

A function of `link2symlink` makes several calls of the host, and any of them may
fail.  A host refuses a call by what the call is (`L2sHost.refuses`).  Two functions
repeat a call: a link that cannot be made is taken back with the calls that made it,
and a copy that cannot be finished is removed as the link was.  The second time the
host may answer otherwise, so the refusals of that time are an input of their own.

## Main definitions

* `moveAndSymlinkPathThen` — a link more, with the refusals of its undo.
* `materializeExecutable` — a copy of the data in place of a link.
* `NamesKept` — what an error must leave.
-/

namespace NeoProot.Link2symlink
open LinkStore

variable {D : Type}

/-- The calls that a host refuses at some time. -/
structure Refusals where
  refuses : HostCall → Option Errno
  rename_ne_enoent : ∀ old new, refuses (.rename old new) ≠ some .enoent
  symlink_ne_eexist : ∀ target path, refuses (.symlink target path) ≠ some .eexist

namespace L2sHost

variable (h : L2sHost D)

/-- The host at a time when it refuses these calls. -/
def refusing (later : Refusals) : L2sHost D :=
  { h with
    refuses := later.refuses
    rename_ne_enoent := later.rename_ne_enoent
    symlink_ne_eexist := later.symlink_ne_eexist }

/-- The calls that the host refuses now. -/
def refusals : Refusals := ⟨h.refuses, h.rename_ne_enoent, h.symlink_ne_eexist⟩

/-! ### One link more -/

/-- `destLink`, where the source loses its new link at another time. -/
def destLinkThen (undo : Refusals) (s : HostStore D) (original intermediate : CStr)
    (dest : Except Errno CStr) : HostStore D × LinkAnswer :=
  match dest with
  | .error e => (((h.refusing undo).decrementLinkCount s (.ok original)).1, .failed e)
  | .ok dest =>
    match h.symlink s intermediate dest with
    | .error e => (((h.refusing undo).decrementLinkCount s (.ok original)).1, .failed e)
    | .ok s => (s, .done)

def originalLinkThen (undo : Refusals) (s : HostStore D) (original intermediate : CStr)
    (dest : Except Errno CStr) : HostStore D × LinkAnswer :=
  match h.symlink s intermediate original with
  | .ok s => h.destLinkThen undo s original intermediate dest
  | .error e =>
    if e = .eexist then h.destLinkThen undo s original intermediate dest else (s, .failed e)

def makeFamilyThen (undo : Refusals) (s : HostStore D) (original intermediate final : CStr)
    (dest : Except Errno CStr) : HostStore D × LinkAnswer :=
  match h.l2sSymlink s final intermediate with
  | .ok s => h.originalLinkThen undo s original intermediate dest
  | .error e =>
    if e = .eexist then
      if h.Usable s intermediate then h.reuse s original intermediate dest
      else
        let s' := match h.l2sUnlink s intermediate with
          | .ok s' => s'
          | .error _ => s
        match h.l2sSymlink s' final intermediate with
        | .ok s' => h.originalLinkThen undo s' original intermediate dest
        | .error e => (s', .failed e)
    else (s, .failed e)

def firstLinkThen (undo : Refusals) (s : HostStore D) (original stem : CStr)
    (dest : Except Errno CStr) : HostStore D × LinkAnswer :=
  let intermediate := h.newIntermediate s stem
  let final := firstFinal intermediate
  match h.l2sRename s original final with
  | .ok s => h.makeFamilyThen undo s original intermediate final dest
  | .error e =>
    if e = .enoent then
      match dest, h.l2sLstat s intermediate with
      | .ok dest, .ok _ =>
        match h.symlink s intermediate dest with
        | .ok s => (s, .done)
        | .error e => (s, .failed e)
      | _, _ => (s, .failed .enoent)
    else (s, .failed e)

def nextLinkThen (undo : Refusals) (s : HostStore D) (original intermediate : CStr)
    (dest : Except Errno CStr) : HostStore D × LinkAnswer :=
  match h.myReadlink s intermediate with
  | .error e => (s, .failed e)
  | .ok final =>
    match parseL2sFinalCount final with
    | none => (s, .failed .einval)
    | some linkCount =>
      if maxLinkCount < linkCount + 1 then (s, .failed .emlink)
      else
        match h.recount s intermediate final (withLinkCount final (linkCount + 1)) with
        | (s, .error e) => (s, .failed e)
        | (s, .ok _) => h.destLinkThen undo s original intermediate dest

/-- `move_and_symlink_path`, where the undo of a link finds other refusals. -/
def moveAndSymlinkPathThen (undo : Refusals) (s : HostStore D) (src dest : Except Errno CStr) :
    HostStore D × LinkAnswer :=
  if dest.toOption.any isGitOdbLinkDest then (s, .kernel)
  else
    match src with
    | .error e => (s, .failed e)
    | .ok original =>
      if h.RawDirectoryTooLong then (s, .failed .enametoolong)
      else
        match h.l2sLstat s original with
        | .error e => (s, .failed e)
        | .ok .directory => (s, .failed .eperm)
        | .ok (.link _) =>
          match h.myReadlink s original with
          | .error e => (s, .failed e)
          | .ok intermediate =>
            if isL2sInternalPath intermediate then
              h.nextLinkThen undo s original intermediate dest
            else if l2sPrefix.isPrefixOf (getFilename intermediate) then (s, .failed .einval)
            else h.firstLinkThen undo s original intermediate dest
        | .ok (.file _) =>
          match h.stemOfFile original with
          | .error e => (s, .failed e)
          | .ok stem => h.firstLinkThen undo s original stem dest

/-! ### A copy in place of a link -/

/-- `unlink`, whatever it answers. -/
def dropped (s : HostStore D) (path : CStr) : HostStore D :=
  match h.unlink s path with
  | .ok s => s
  | .error _ => s

def l2sDropped (s : HostStore D) (path : CStr) : HostStore D :=
  match h.l2sUnlink s path with
  | .ok s => s
  | .error _ => s

/-- `open` with `O_CREAT | O_EXCL`. -/
def create (s : HostStore D) (path : CStr) (data : D) : Except Errno (HostStore D) :=
  match s path, h.refuses (.create path) with
  | some _, _ => .error .eexist
  | none, some e => .error e
  | none, none => .ok (Function.update s path (some (.file data)))

/-- The path of the host: below the backing directory, whatever directory the link
names. -/
def hostName (path : CStr) : CStr :=
  match h.getL2sDirectory with
  | some directory => (directory ++ ['/'] ++ getFilename path).take (pathMax - 1)
  | none => path

/-- A link has left the family. -/
def retire (s : HostStore D) (intermediate final : CStr) : HostStore D :=
  match parseL2sFinalCount final with
  | none => s
  | some linkCount =>
    if linkCount = 0 then s
    else if 0 < linkCount - 1 then
      match h.l2sRename s final (withLinkCount final (linkCount - 1)) with
      | .error _ => s
      | .ok s =>
        let s := h.l2sDropped s intermediate
        match h.l2sSymlink s (withLinkCount final (linkCount - 1)) intermediate with
        | .error _ => s
        | .ok s => s
    else h.l2sDropped (h.l2sDropped s intermediate) final

end L2sHost

/-- The bytes of a regular file, and its permission bits. -/
structure FileData where
  bytes : List UInt8
  mode : ℕ
  deriving DecidableEq, Repr

/-- How the calls of a copy end. -/
structure CopyCalls where
  /-- The error of the `open` of the data. -/
  opens : Option Errno
  /-- How many bytes more than one a `read` returns at most, by its turn. -/
  reads : ℕ → Except Errno ℕ
  /-- How many bytes a `write` takes at most, by its turn. -/
  writes : ℕ → Except Errno ℕ
  chmods : Option Errno
  /-- What the umask leaves of the bits of a new file. -/
  umasked : ℕ → ℕ

/-- The size of `buf`. -/
def copyBufferSize : ℕ := 65536

namespace CopyCalls

variable (c : CopyCalls)

/-- What the `read` of this turn returns, with so much left of the file. -/
def chunk (most : ℕ) (rest : List UInt8) : List UInt8 :=
  rest.take (min (most + 1) copyBufferSize)

/-- The loop over the file from this turn on: what it writes, and whether it comes to
the end. -/
def copyFrom (turn : ℕ) (rest : List UInt8) : List UInt8 × Bool :=
  match c.reads turn with
  | .error _ => ([], false)
  | .ok most =>
    if rest = [] then ([], true)
    else
      match c.writes turn with
      | .error _ => ([], false)
      | .ok wrote =>
        -- A short write is an error.
        if wrote < (chunk most rest).length then ((chunk most rest).take wrote, false)
        else
          let next := copyFrom (turn + 1) (rest.drop (min (most + 1) copyBufferSize))
          (chunk most rest ++ next.1, next.2)
termination_by rest.length
decreasing_by
  rename_i hrest _
  have hpos := List.length_pos_iff.2 hrest
  have hbuffer : 0 < copyBufferSize := by decide
  rw [List.length_drop]
  omega

/-- A loop that comes to the end has written the file. -/
theorem copyFrom_whole {turn : ℕ} {rest : List UInt8} (hend : (c.copyFrom turn rest).2 = true) :
    (c.copyFrom turn rest).1 = rest := by
  fun_induction c.copyFrom turn rest with
  | case1 | case3 | case4 => cases hend
  | case2 => rfl
  | case5 turn rest most _ _ _ _ _ next ih =>
    rw [ih hend, chunk, List.take_append_drop]

end CopyCalls

namespace L2sHost

variable (h : L2sHost FileData)

/-- The link is removed, and the data is copied to its name. -/
def copyInPlace (later : Refusals) (c : CopyCalls) (s : HostStore FileData)
    (path intermediate final : CStr) (data : FileData) : HostStore FileData × Bool :=
  let s := h.dropped s path
  match h.create s path ⟨[], c.umasked data.mode⟩ with
  | .error _ => ((h.refusing later).dropped s path, false)
  | .ok s =>
    if (h.l2sEntry final).isOk ∧ c.opens = none then
      let copied := c.copyFrom 0 data.bytes
      if copied.2 ∧ c.chmods = none then
        (h.retire (Function.update s path (some (.file ⟨copied.1, data.mode⟩))) intermediate final,
          true)
      else
        ((h.refusing later).dropped
          (Function.update s path (some (.file ⟨copied.1, c.umasked data.mode⟩))) path, false)
    else ((h.refusing later).dropped s path, false)

/-- `materialize_executable`.  A copy that fails is removed with the refusals of that
time. -/
def materializeExecutable (later : Refusals) (c : CopyCalls) (s : HostStore FileData)
    (path : CStr) : HostStore FileData × Bool :=
  if isL2sInternalPath path then (s, false)
  else
    match h.myReadlink s path with
    | .error _ => (s, false)
    | .ok intermediate =>
      if isL2sInternalPath intermediate then
        match h.myReadlink s (h.hostName intermediate) with
        | .error _ => (s, false)
        | .ok final =>
          match h.l2sLstat s (h.hostName final) with
          | .ok (.file data) =>
            h.copyInPlace later c s path (h.hostName intermediate) (h.hostName final) data
          | _ => (s, false)
      else (s, false)

end L2sHost

/-! ### What an error must leave -/

/-- Every name that the guest sees holds what it held. -/
def Readable (h : L2sHost D) (s s' : HostStore D) : Prop :=
  KeepsOutside h.follow (fun path => isL2sInternalPath path = true) s s'

/-- **What a call must leave**: the names that the guest sees, and no new one if the
call fails. -/
structure NamesKept (h : L2sHost D) (s s' : HostStore D) (failed : Prop) : Prop where
  readable : Readable h s s'
  unmade : failed → ∀ path, isL2sInternalPath path = false → s path = none → s' path = none

end NeoProot.Link2symlink
