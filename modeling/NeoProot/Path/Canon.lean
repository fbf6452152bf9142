import NeoProot.Path.Translate

/-!
# Canonicalization

`canonicalize` resolves a user path component by component.  It asks the host for
every component it meets, follows symbolic links by calling itself on their
content, and keeps the resolved part in one buffer that is also where relative
content continues.

What `canonicalize` asks of its surroundings is in `World`: the host file system,
which does not change during a call, the other tracees, and what extensions make
of a host path.  `build_glue` only runs while the bindings of the command line are
installed and changes the file system; it is not part of a `World`.

## Main definitions

* `World` — the surroundings of a call.
* `nextComponent`, `popComponent`, `joinPaths` — the path primitives.
* `substituteBindingStat` — the type of the object a guest path names.
* `canonicalize` — the resolution.
-/

namespace NeoProot

/-- The file types `canonicalize` tells apart: `S_ISDIR`, `S_ISLNK`, neither. -/
inductive FileType
  | directory
  | symlink
  | other
  deriving DecidableEq, Repr

/-- `Finality`. -/
inductive Finality
  | notFinal
  | finalNormal
  | finalSlash
  | finalDot
  deriving DecidableEq, Repr

/-- `IS_FINAL`. -/
def Finality.isFinal (f : Finality) : Bool := f ≠ .notFinal

/-- The surroundings of a call to `canonicalize`. -/
structure World where
  tracee : Tracee
  /-- The tracee of a process number. -/
  getTracee : ℤ → Option Tracee
  /-- `MAXSYMLINKS` of the C library. -/
  maxSymlinks : ℕ
  lstat : CStr → Except Errno FileType
  readlink : CStr → Except Errno CStr
  /-- `notify_extensions(HOST_PATH)`: the extensions that listen rewrite the path
  at most. -/
  notifyHostPath : CStr → CStr
  shouldSkipFileAccessDueToF2fsBug : CStr → Bool
  /-- What `st_mode` holds when `lstat` of the path did not fill it in. -/
  unset : CStr → FileType

/-- One round of the loop of `join_paths`. -/
def appendPath (result path : CStr) : Except Errno CStr :=
  if path = [] then .ok result
  else
    let needSlash := result ≠ [] ∧ result.getLast? ≠ some '/' ∧ path.head? ≠ some '/'
    let newLen := result.length + path.length + if needSlash then 1 else 0
    if pathMax ≤ newLen + 1 then .error .enametoolong
    else if needSlash then .ok (result ++ '/' :: path)
    else if result ≠ [] ∧ result.getLast? = some '/' ∧ path.head? = some '/' then
      .ok (result ++ path.drop 1)
    else .ok (result ++ path)

/-- `join_paths(2, result, path1, path2)`. -/
def joinPaths (path1 path2 : CStr) : Except Errno CStr :=
  match appendPath [] path1 with
  | .error e => .error e
  | .ok result => appendPath result path2

/-- `while (len > 1 && p(path[len])) len--;`. -/
def backWhile (p : Char → Bool) (path : CStr) : ℕ → ℕ
  | 0 => 0
  | 1 => 1
  | len + 2 => if path[len + 2]?.any p then backWhile p path (len + 1) else len + 2

/-- `pop_component`. -/
def popComponent (path : CStr) : CStr :=
  if ¬ IsAbsolute path then path
  else
    let len := path.length - 1
    if len = 0 then path
    else path.take (backWhile (· ≠ '/') path (backWhile (· = '/') path len))

/-- `next_component`: the component, its finality, and the cursor behind it. -/
def nextComponent (cursor : CStr) : Except Errno (CStr × Finality × CStr) :=
  let start := cursor.dropWhile (· = '/')
  let component := start.takeWhile (· ≠ '/')
  let cursor := start.dropWhile (· ≠ '/')
  if nameMax ≤ component.length then .error .enametoolong
  else
    let wantDir := cursor.head? = some '/'
    let cursor := cursor.dropWhile (· = '/')
    if cursor = [] then .ok (component, if wantDir then .finalSlash else .finalNormal, cursor)
    else .ok (component, .notFinal, cursor)

/-- What the calls of `next_component` return one after the other, up to the final
one.  Each call but the final one moves the cursor, so `fuel` is its length. -/
def nextComponents (fuel : ℕ) (cursor : CStr) : List (Except Errno (CStr × Finality)) :=
  match nextComponent cursor with
  | .error e => [.error e]
  | .ok (component, fin, cursor) =>
    match fuel with
    | 0 => [.ok (component, fin)]
    | fuel + 1 =>
      if fin.isFinal then [.ok (component, fin)]
      else .ok (component, fin) :: nextComponents fuel cursor

/-- `substitute_binding_stat`: whether the path names a symbolic link, and its
host path. -/
def substituteBindingStat (w : World) (finality : Finality) (guestPath : CStr) :
    Except Errno (Bool × CStr) :=
  match w.tracee.fs.bindings.substituteBinding .guest guestPath with
  | .error e => .error e
  | .ok (_, hostPath) =>
    let hostPath := w.notifyHostPath hostPath
    -- `res < 0`, and the `st_mode` that the tests below look at.
    let (failed, mode) :=
      if w.shouldSkipFileAccessDueToF2fsBug hostPath then (true, w.unset hostPath)
      else
        match w.lstat hostPath with
        | .ok mode => (false, mode)
        | .error e =>
          if e = .eacces ∧
              (hostPath = str "/linkerconfig" ∨ hostPath = str "/system" ∨
                hostPath = str "/vendor") then
            (false, .directory)
          else (true, w.unset hostPath)
    if ¬ finality.isFinal ∧ mode ≠ .directory ∧ mode ≠ .symlink then
      .error (if failed then .enoent else .enotdir)
    else .ok (decide (mode = .symlink), hostPath)

def resolveNoMagiclinks : UInt64 := 0x02
def resolveNoSymlinks : UInt64 := 0x04
def oPath : UInt64 := 0x200000

/-- `O_NOFOLLOW` on AArch64. -/
def oNofollow : UInt64 := 0x8000

/-- What the `openat2` restrictions say about a symbolic link. -/
inductive LinkCheck
  | eloop
  | keep
  | proceed
  deriving DecidableEq, Repr

/-- The checks `canonicalize` makes for `tracee->openat2_resolve`. -/
def checkLink (tracee : Tracee) (fin : Finality) (recursionLevel : ℕ) (scratchPath : CStr) :
    LinkCheck :=
  let resolve := tracee.openat2Resolve
  if resolve = 0 then .proceed
  else if resolve &&& resolveNoSymlinks ≠ 0 then
    if fin.isFinal ∧ recursionLevel = 0 ∧ tracee.openat2Oflags &&& oPath ≠ 0 ∧
        tracee.openat2Oflags &&& oNofollow ≠ 0 then .keep
    else .eloop
  else if resolve &&& resolveNoMagiclinks ≠ 0 ∧
      (comparePaths (str "/proc") scratchPath = .pathsAreEqual ∨
        comparePaths (str "/proc") scratchPath = .path1IsPrefix) then .eloop
  else .proceed

/-- What stands behind a symbolic link. -/
inductive LinkContent
  /-- A path to go on with: `goto canon_symlink`. -/
  | path (scratchPath : CStr)
  /-- `return 0` with this path. -/
  | stop (guestPath : CStr)
  /-- No longer a link. -/
  | regular
  deriving DecidableEq, Repr

/-- The content of a link as the host has it. -/
def readlinkHost (w : World) (hostPath : CStr) : Except Errno LinkContent :=
  match w.readlink hostPath with
  | .error e =>
    -- The file may have changed since it was looked at.
    match w.lstat hostPath with
    | .ok mode => if mode ≠ .symlink then .ok .regular else .error e
    | .error _ => .error e
  | .ok content =>
    match detranslatePath w.tracee w.getTracee (content.take (pathMax - 1)) (some hostPath) with
    | .error e => .error e
    | .ok (_, scratchPath) => .ok (.path (w.notifyHostPath scratchPath))

/-- From the test for `/proc` to `canon_symlink`. -/
def linkContent (w : World) (fin : Finality) (guestPath comp hostPath : CStr) :
    Except Errno LinkContent :=
  let cmp := comparePaths (str "/proc") guestPath
  if cmp = .pathsAreEqual ∨ cmp = .path1IsPrefix then
    match readlinkProc w.tracee w.getTracee guestPath comp cmp with
    | .error e => .error e
    | .ok (.canonicalize scratchPath) => .ok (.path scratchPath)
    | .ok (.dontCanonicalize scratchPath) =>
      if fin = .finalNormal then .ok (.stop scratchPath) else readlinkHost w hostPath
    | .ok .default => readlinkHost w hostPath
  else readlinkHost w hostPath

/-- The loop of `canonicalize`, over what `next_component` returns: the guest path,
and the finality unless the loop returned.  `recurse` is the call for a link. -/
def canonicalizeLoop (w : World) (recurse : CStr → CStr → ℕ → Except Errno CStr)
    (derefFinal : Bool) (recursionLevel : ℕ) : ℕ → CStr → Finality →
    List (Except Errno (CStr × Finality)) → Except Errno (CStr × Option Finality)
  | _, guestPath, fin, [] => .ok (guestPath, some fin)
  | _, _, _, .error e :: _ => .error e
  | symlinksFollowed, guestPath, _, .ok (comp, fin) :: rest =>
    if comp = str "." then
      canonicalizeLoop w recurse derefFinal recursionLevel symlinksFollowed guestPath
        (if fin.isFinal then .finalDot else fin) rest
    else if comp = str ".." then
      canonicalizeLoop w recurse derefFinal recursionLevel symlinksFollowed
        (popComponent guestPath) (if fin.isFinal then .finalSlash else fin) rest
    else
      match joinPaths guestPath comp with
      | .error e => .error e
      | .ok scratchPath =>
        match substituteBindingStat w fin scratchPath with
        | .error e => .error e
        | .ok (isLink, hostPath) =>
          let check := if isLink then checkLink w.tracee fin recursionLevel scratchPath else .keep
          if check = .eloop then .error .eloop
          -- The guest path and the component are joined once more for the result.
          else if check = .keep ∨ (fin = .finalNormal ∧ ¬ derefFinal) then
            canonicalizeLoop w recurse derefFinal recursionLevel symlinksFollowed scratchPath fin
              rest
          else
            match linkContent w fin guestPath comp hostPath with
            | .error e => .error e
            | .ok .regular =>
              canonicalizeLoop w recurse derefFinal recursionLevel symlinksFollowed scratchPath
                fin rest
            | .ok (.stop path) => .ok (path, none)
            | .ok (.path path) =>
              match recurse path guestPath (recursionLevel + (symlinksFollowed + 1)) with
              | .error e => .error e
              | .ok guestPath =>
                match substituteBindingStat w fin guestPath with
                | .error e => .error e
                | .ok _ =>
                  canonicalizeLoop w recurse derefFinal recursionLevel (symlinksFollowed + 1)
                    guestPath fin rest

/-- The end of `canonicalize`.  A suffix that does not fit leaves the path alone. -/
def addFinality (guestPath : CStr) (fin : Finality) : CStr :=
  match fin with
  | .finalSlash => ((joinPaths guestPath []).toOption).getD guestPath
  | .finalDot => ((joinPaths guestPath ['.']).toOption).getD guestPath
  | _ => guestPath

/-- `canonicalize`.  Every nested call is on a higher level, so `fuel` is the
number of levels that are left. -/
def canonicalizeFrom (w : World) : ℕ → CStr → Bool → CStr → ℕ → Except Errno CStr
  | 0, _, _, _, _ => .error .eloop
  | fuel + 1, userPath, derefFinal, guestPath, recursionLevel =>
    if w.maxSymlinks < recursionLevel then .error .eloop
    else if pathMax ≤ userPath.length then .error .enametoolong
    else if ¬ IsAbsolute userPath ∧ ¬ IsAbsolute guestPath ∧ recursionLevel ≠ 0 then
      .error .einval
    else
      let guestPath :=
        if IsAbsolute userPath ∨ ¬ IsAbsolute guestPath then ['/'] else guestPath
      match canonicalizeLoop w (fun path => canonicalizeFrom w fuel path true) derefFinal recursionLevel
          0 guestPath .notFinal (nextComponents userPath.length userPath) with
      | .error e => .error e
      | .ok (guestPath, none) => .ok guestPath
      | .ok (guestPath, some fin) =>
        .ok (if recursionLevel = 0 then addFinality guestPath fin else guestPath)

/-- `canonicalize` as the translation calls it, on level 0. -/
def canonicalize (w : World) (userPath : CStr) (derefFinal : Bool) (guestPath : CStr) :
    Except Errno CStr :=
  canonicalizeFrom w (w.maxSymlinks + 1) userPath derefFinal guestPath 0

end NeoProot
