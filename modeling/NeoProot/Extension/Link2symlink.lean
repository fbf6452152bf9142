import NeoProot.Path.Compare
import NeoProot.Lib.LinkStore
import Mathlib.Data.List.DropRight

/-!
# Hard links made of symbolic links

Where the host has no hard links, the `link2symlink` extension makes a family of
links: the data moves to a *final* file whose name ends in the number of links, an
*intermediate* link points at the final file, and every name of the family is a
link to the intermediate.

## Main definitions

* `isL2sInternalName`, `isL2sFile`, `parseL2sFinalCount` — the names of a family.
* `isGitOdbLinkDest` — the destinations that are left to the kernel.
* `L2sHost` — the host under the extension, and its file calls.
* `moveAndSymlinkPath`, `decrementLinkCount` — a link more, a link less.
* `handleLinkatFromProcFd` — a link to a file that was deleted.
-/

namespace NeoProot.Link2symlink
open LinkStore

/-! ### Names -/

/-- `PREFIX`. -/
def l2sPrefix : CStr := str ".l2s."

/-- `MAX_LINK_SUFFIX`. -/
def maxLinkSuffix : ℕ := 1000

/-- `MAX_LINK_COUNT`. -/
def maxLinkCount : ℕ := 9999

/-- What follows the last `/`. -/
def getFilename (path : CStr) : CStr := path.rtakeWhile (· ≠ '/')

/-- `parse_4digit`. -/
def parse4digit : CStr → ℕ
  | [a, b, c, d] => digit a * 1000 + digit b * 100 + digit c * 10 + digit d
  | _ => 0
where
  digit (c : Char) : ℕ := c.toNat - '0'.toNat

/-- What `%04d` prints of a number below 10000. -/
def fourDigits (n : ℕ) : CStr :=
  [Nat.digitChar (n / 1000 % 10), Nat.digitChar (n / 100 % 10), Nat.digitChar (n / 10 % 10),
    Nat.digitChar (n % 10)]

/-- The last four characters. -/
def lastFour (name : CStr) : CStr := name.drop (name.length - 4)

/-- The name of an intermediate link or of a final file. -/
def isL2sInternalName (name : CStr) : Bool :=
  l2sPrefix.isPrefixOf name && decide (l2sPrefix.length + 5 ≤ name.length) &&
    (lastFour name).all Char.isDigit

def isL2sInternalPath (path : CStr) : Bool := isL2sInternalName (getFilename path)

/-- The name of a final file. -/
def isL2sFile (path : CStr) : Bool :=
  let name := getFilename path
  l2sPrefix.isPrefixOf name && decide (l2sPrefix.length + 5 ≤ name.length) &&
    name[name.length - 5]? == some '.' && (lastFour name).all Char.isDigit

/-- The number of links that the name of a final file tells. -/
def parseL2sFinalCount (path : CStr) : Option ℕ :=
  if isL2sFile path then some (parse4digit (lastFour (getFilename path))) else none

/-- The name of the final file with another number of links. -/
def withLinkCount (final : CStr) (count : ℕ) : CStr :=
  final.take (final.length - 4) ++ fourDigits count

/-- `snprintf(new_intermediate, PATH_MAX, "%s%04d", intermediate, suffix)`. -/
def numbered (stem : CStr) (suffix : ℕ) : CStr :=
  (stem ++ fourDigits suffix).take (pathMax - 1)

/-- `snprintf(final, PATH_MAX, "%s.0002", intermediate)`. -/
def firstFinal (intermediate : CStr) : CStr := (intermediate ++ str ".0002").take (pathMax - 1)

/-! ### The object store of Git -/

def isXdigit (c : Char) : Bool :=
  c.isDigit || decide ('a' ≤ c ∧ c ≤ 'f') || decide ('A' ≤ c ∧ c ≤ 'F')

/-- What follows `objects/` in the name of a loose object. -/
def isLooseObject : CStr → Bool
  | a :: b :: '/' :: name =>
    isXdigit a && isXdigit b && name.all isXdigit && (name.length == 38 || name.length == 62)
  | _ => false

/-- A file right below this directory. -/
def isChildOf (directory path : CStr) : Bool :=
  directory.isPrefixOf path &&
    (!(path.drop directory.length).isEmpty && !(path.drop directory.length).contains '/')

/-- What follows `objects/` in a name of the store. -/
def isOdbLayout (rest : CStr) : Bool :=
  isLooseObject rest || isChildOf (str "pack/") rest || isChildOf (str "info/") rest ||
    isChildOf (str "info/commit-graphs/") rest

/-- What follows the first `/objects/`. -/
def afterObjects : CStr → Option CStr
  | [] => none
  | c :: cs =>
    if (str "/objects/").isPrefixOf (c :: cs) then some (cs.drop 8) else afterObjects cs

/-- Some `/objects/` of the path is followed by a name of the store. -/
def hasOdbLayout : ℕ → CStr → Bool
  | 0, _ => false
  | n + 1, path =>
    match afterObjects path with
    | none => false
    | some rest => isOdbLayout rest || hasOdbLayout n rest

def isGitOdbLinkDest (path : CStr) : Bool :=
  if (str "objects/").isPrefixOf path then
    isOdbLayout (path.drop 8) || hasOdbLayout path.length (path.drop 8)
  else hasOdbLayout path.length path

/-! ### The host -/

/-- The calls that change the file system. -/
inductive HostCall
  | rename (old new : CStr)
  | symlink (target path : CStr)
  | unlink (path : CStr)
  | link (old new : CStr)
  | create (path : CStr)
  deriving DecidableEq, Repr

/-- The names of the host.  A name is the canonical path of its place. -/
abbrev HostStore (D : Type) := Store CStr CStr D

/-- The host, apart from its names: the environment variable, whether the backing
directory can be opened, the calls it refuses for reasons of its own, and where the
text of a link leads. -/
structure L2sHost (D : Type) where
  /-- `PROOT_L2S_DIR`. -/
  l2sDir : Option CStr
  openDirectory : Except Errno Unit
  refuses : HostCall → Option Errno
  renameDirectory : HostStore D → CStr → CStr → Except Errno (HostStore D)
  follow : CStr → CStr → CStr
  /-- The variable holds a path of the host. -/
  l2sDir_absolute : ∀ dir, l2sDir = some dir → dir ≠ [] → IsAbsolute dir
  /-- The directories of a rename exist. -/
  rename_ne_enoent : ∀ old new, refuses (.rename old new) ≠ some .enoent
  /-- Whether a name is taken is for the store to say. -/
  symlink_ne_eexist : ∀ target path, refuses (.symlink target path) ≠ some .eexist
  /-- The links of a family lead where they say. -/
  follow_l2s : ∀ path text, IsAbsolute text → l2sPrefix.isPrefixOf (getFilename text) = true →
    follow path text = text

variable {D : Type}

/-- Without a variable there is no path. -/
theorem noDirectory_absolute (dir : CStr) (h : none = some dir) : dir ≠ [] → IsAbsolute dir := by
  cases h

/-- A host that refuses nothing. -/
theorem noRefusal_ne (e : Errno) (_ _ : CStr) : (none : Option Errno) ≠ some e := by
  intro h
  cases h

namespace L2sHost

variable (h : L2sHost D) (s : HostStore D)

/-- The backing directory, if it is not the root. -/
def getL2sDirectory : Option CStr :=
  match h.l2sDir with
  | none => none
  | some value =>
    if value = [] ∨ pathMax ≤ value.length then none
    else
      let directory := value.rdropWhile (· = '/')
      if directory = [] then none else some directory

/-- Only a direct child of the backing directory is found from its descriptor. -/
def l2sEntry (path : CStr) : Except Errno Unit :=
  match h.getL2sDirectory with
  | none => .ok ()
  | some directory =>
    if isChildOf (directory ++ ['/']) path then h.openDirectory else .ok ()

def lstat (path : CStr) : Except Errno (Node CStr D) :=
  match s path with
  | none => .error .enoent
  | some node => .ok node

/-- `my_readlink`. -/
def myReadlink (path : CStr) : Except Errno CStr :=
  match h.l2sEntry path, s path with
  | .error e, _ => .error e
  | .ok _, none => .error .enoent
  | .ok _, some (.link text) =>
    if pathMax - 1 ≤ text.length then .error .enametoolong else .ok text
  | .ok _, some _ => .error .einval

/-- `access(path, F_OK)`, with the forty links that a kernel follows. -/
def access (path : CStr) : Bool := Reaches h.follow s 40 path

def rename (old new : CStr) : Except Errno (HostStore D) :=
  match s old, s new with
  | none, _ => .error .enoent
  | some .directory, _ => h.renameDirectory s old new
  | some _, some .directory => .error .eisdir
  | some node, _ =>
    match h.refuses (.rename old new) with
    | some e => .error e
    | none =>
      if old = new then .ok s
      else .ok (Function.update (Function.update s old none) new (some node))

def symlink (target path : CStr) : Except Errno (HostStore D) :=
  match s path, h.refuses (.symlink target path) with
  | some _, _ => .error .eexist
  | none, some e => .error e
  | none, none => .ok (Function.update s path (some (.link target)))

def unlink (path : CStr) : Except Errno (HostStore D) :=
  match s path, h.refuses (.unlink path) with
  | none, _ => .error .enoent
  | some .directory, _ => .error .eisdir
  | some _, some e => .error e
  | some _, none => .ok (Function.update s path none)

/-- The kernel's own `link`, which does not follow the old name. -/
def link (old new : CStr) : Except Errno (HostStore D) :=
  match s old, s new, h.refuses (.link old new) with
  | none, _, _ => .error .enoent
  | some .directory, _, _ => .error .eperm
  | some _, some _, _ => .error .eexist
  | some _, none, some e => .error e
  | some node, none, none => .ok (Function.update s new (some node))

/-! The calls that find a child of the backing directory from its descriptor. -/

def l2sLstat (path : CStr) : Except Errno (Node CStr D) :=
  (h.l2sEntry path).bind fun _ => lstat s path

def l2sAccess (path : CStr) : Bool :=
  (h.l2sEntry path).isOk && h.access s path

def l2sSymlink (target path : CStr) : Except Errno (HostStore D) :=
  (h.l2sEntry path).bind fun _ => h.symlink s target path

def l2sUnlink (path : CStr) : Except Errno (HostStore D) :=
  (h.l2sEntry path).bind fun _ => h.unlink s path

def l2sRename (old new : CStr) : Except Errno (HostStore D) :=
  (h.l2sEntry old).bind fun _ => (h.l2sEntry new).bind fun _ => h.rename s old new

/-! What the calls do. -/

variable {h s} {old new path target text : CStr} {node : Node CStr D} {e : Errno} {c : D}

theorem rename_node (hold : s old = some node) (hnode : node ≠ .directory)
    (hnew : s new ≠ some .directory) (hok : h.refuses (.rename old new) = none) (hne : old ≠ new) :
    h.rename s old new = .ok (Function.update (Function.update s old none) new (some node)) := by
  cases node with
  | directory => exact absurd rfl hnode
  | file c | link c =>
    cases hthere : s new with
    | none => simp only [rename, hold, hthere, hok, if_neg hne]
    | some node =>
      cases node with
      | directory => exact absurd hthere hnew
      | file d | link d => simp only [rename, hold, hthere, hok, if_neg hne]

theorem rename_file (hold : s old = some (.file c)) (hnew : s new ≠ some .directory)
    (hok : h.refuses (.rename old new) = none) (hne : old ≠ new) :
    h.rename s old new =
      .ok (Function.update (Function.update s old none) new (some (.file c))) :=
  rename_node hold (by simp) hnew hok hne

theorem rename_file_error (hold : s old = some (.file c))
    (hbad : ¬ (s new ≠ some .directory ∧ h.refuses (.rename old new) = none)) :
    ∃ e, e ≠ .enoent ∧ h.rename s old new = .error e := by
  cases hnode : s new with
  | some node =>
    cases node with
    | directory => exact ⟨.eisdir, by decide, by simp only [rename, hold, hnode]⟩
    | file d | link d =>
      cases hrefuse : h.refuses (.rename old new) with
      | none => exact absurd ⟨by simp [hnode], hrefuse⟩ hbad
      | some e =>
        refine ⟨e, fun he => h.rename_ne_enoent old new (he ▸ hrefuse), ?_⟩
        simp only [rename, hold, hnode, hrefuse]
  | none =>
    cases hrefuse : h.refuses (.rename old new) with
    | none => exact absurd ⟨by simp [hnode], hrefuse⟩ hbad
    | some e =>
      refine ⟨e, fun he => h.rename_ne_enoent old new (he ▸ hrefuse), ?_⟩
      simp only [rename, hold, hnode, hrefuse]

theorem symlink_free (hpath : s path = none) (hok : h.refuses (.symlink target path) = none) :
    h.symlink s target path = .ok (Function.update s path (some (.link target))) := by
  simp only [symlink, hpath, hok]

theorem symlink_taken (hpath : s path ≠ none) : h.symlink s target path = .error .eexist := by
  cases hnode : s path with
  | none => exact absurd hnode hpath
  | some node => simp only [symlink, hnode]

theorem symlink_refused (hpath : s path = none) (he : h.refuses (.symlink target path) = some e) :
    h.symlink s target path = .error e := by
  simp only [symlink, hpath, he]

theorem unlink_ok (hpath : s path = some node) (hnode : node ≠ .directory)
    (hok : h.refuses (.unlink path) = none) :
    h.unlink s path = .ok (Function.update s path none) := by
  cases node with
  | directory => exact absurd rfl hnode
  | file d => simp only [unlink, hpath, hok]
  | link text => simp only [unlink, hpath, hok]

theorem unlink_error (hbad : s path = none ∨ s path = some .directory ∨
    h.refuses (.unlink path) ≠ none) : ∃ e, h.unlink s path = .error e := by
  cases hpath : s path with
  | none => exact ⟨.enoent, by simp only [unlink, hpath]⟩
  | some node =>
    cases node with
    | directory => exact ⟨.eisdir, by simp only [unlink, hpath]⟩
    | file d | link d =>
      cases hrefuse : h.refuses (.unlink path) with
      | none => simp [hpath, hrefuse] at hbad
      | some e => exact ⟨e, by simp only [unlink, hpath, hrefuse]⟩

/-! A call changes no name but those it is given. -/

variable {s' : HostStore D} {other : CStr}

theorem rename_other (hold : s old = some (.file c)) (hok : h.rename s old new = .ok s')
    (hne : other ≠ old) (hne' : other ≠ new) : s' other = s other := by
  by_cases hgood : s new ≠ some .directory ∧ h.refuses (.rename old new) = none
  · by_cases hsame : old = new
    · subst hsame
      simp only [rename, hold, hgood.2, if_true, Except.ok.injEq] at hok
      rw [← hok]
    · rw [rename_file hold hgood.1 hgood.2 hsame, Except.ok.injEq] at hok
      rw [← hok, Function.update_of_ne hne', Function.update_of_ne hne]
  · obtain ⟨e, -, he⟩ := rename_file_error hold hgood
    rw [he] at hok
    cases hok

theorem symlink_other (hok : h.symlink s target path = .ok s') (hne : other ≠ path) :
    s' other = s other := by
  rw [symlink] at hok
  split at hok
  · cases hok
  · cases hok
  · cases hok
    exact Function.update_of_ne hne ..

theorem unlink_other (hok : h.unlink s path = .ok s') (hne : other ≠ path) :
    s' other = s other := by
  rw [unlink] at hok
  split at hok
  · cases hok
  · cases hok
  · cases hok
  · cases hok
    exact Function.update_of_ne hne ..

theorem myReadlink_link (hentry : h.l2sEntry path = .ok ()) (hpath : s path = some (.link text))
    (hlen : text.length < pathMax - 1) : h.myReadlink s path = .ok text := by
  simp only [myReadlink, hentry, hpath, if_neg (Nat.not_le.2 hlen)]

theorem myReadlink_long (hentry : h.l2sEntry path = .ok ()) (hpath : s path = some (.link text))
    (hlen : pathMax - 1 ≤ text.length) : h.myReadlink s path = .error .enametoolong := by
  simp only [myReadlink, hentry, hpath, if_pos hlen]

theorem l2sLstat_some (hentry : h.l2sEntry path = .ok ()) (hpath : s path = some node) :
    h.l2sLstat s path = .ok node := by
  simp only [l2sLstat, hentry, Except.bind, lstat, hpath]

theorem l2sLstat_none (hentry : h.l2sEntry path = .ok ()) (hpath : s path = none) :
    h.l2sLstat s path = .error .enoent := by
  simp only [l2sLstat, hentry, Except.bind, lstat, hpath]

theorem l2sSymlink_eq (hentry : h.l2sEntry path = .ok ()) :
    h.l2sSymlink s target path = h.symlink s target path := by
  simp only [l2sSymlink, hentry, Except.bind]

theorem l2sUnlink_eq (hentry : h.l2sEntry path = .ok ()) :
    h.l2sUnlink s path = h.unlink s path := by
  simp only [l2sUnlink, hentry, Except.bind]

theorem l2sRename_eq (hold : h.l2sEntry old = .ok ()) (hnew : h.l2sEntry new = .ok ()) :
    h.l2sRename s old new = h.rename s old new := by
  simp only [l2sRename, hold, hnew, Except.bind]

end L2sHost

/-- What `move_and_symlink_path` answers: the kernel is left to make the link, the
link is made and the call is void, or an error. -/
inductive LinkAnswer
  | kernel
  | done
  | failed (e : Errno)
  deriving DecidableEq, Repr

/-! ### One link less -/

namespace L2sHost

variable (h : L2sHost D)

/-- A new number of links: the final file gets its new name, and the intermediate is
made again. -/
def recount (s : HostStore D) (intermediate final newFinal : CStr) :
    HostStore D × Except Errno Unit :=
  match h.l2sRename s final newFinal with
  | .error e => (s, .error e)
  | .ok s =>
    match h.l2sUnlink s intermediate with
    | .error e => (s, .error e)
    | .ok s =>
      match h.l2sSymlink s newFinal intermediate with
      | .error e => (s, .error e)
      | .ok s => (s, .ok ())

theorem recount_other {h : L2sHost D} {s : HostStore D} {intermediate final newFinal other : CStr}
    {c : D} (hentry : ∀ path, h.l2sEntry path = .ok ()) (hfinal : s final = some (.file c))
    (hi : other ≠ intermediate) (hf : other ≠ final) (hn : other ≠ newFinal) :
    (h.recount s intermediate final newFinal).1 other = s other := by
  simp only [recount, l2sRename_eq (hentry _) (hentry _), l2sUnlink_eq (hentry _),
    l2sSymlink_eq (hentry _)]
  cases hrename : h.rename s final newFinal with
  | error e => rfl
  | ok s₁ =>
    have h₁ := rename_other hfinal hrename hf hn
    cases hunlink : h.unlink s₁ intermediate with
    | error e => simp only [h₁, hunlink]
    | ok s₂ =>
      have h₂ := unlink_other hunlink hi
      cases hsymlink : h.symlink s₂ newFinal intermediate with
      | error e => simp only [h₁, h₂, hunlink, hsymlink]
      | ok s₃ => simp only [h₁, h₂, symlink_other hsymlink hi, hunlink, hsymlink]

/-- The family loses its last link. -/
def removeFamily (s : HostStore D) (intermediate final : CStr) : HostStore D × Except Errno Unit :=
  match h.l2sUnlink s intermediate with
  | .error e => (s, .error e)
  | .ok s =>
    match h.l2sUnlink s final with
    | .error e => (s, .error e)
    | .ok s => (s, .ok ())

def decrementLinkCount (s : HostStore D) (path : Except Errno CStr) :
    HostStore D × Except Errno Unit :=
  match path with
  | .error e => (s, .error e)
  | .ok original =>
    match h.l2sLstat s original with
    | .ok (.link _) =>
      match h.myReadlink s original with
      | .error e => (s, .error e)
      | .ok intermediate =>
        if isL2sInternalPath intermediate then
          match h.myReadlink s intermediate with
          | .error _ => (s, .ok ())
          | .ok final =>
            match parseL2sFinalCount final with
            | none => (s, .ok ())
            | some linkCount =>
              if 0 < linkCount - 1 then
                h.recount s intermediate final (withLinkCount final (linkCount - 1))
              else h.removeFamily s intermediate final
        else (s, .ok ())
    | _ => (s, .ok ())

/-! ### One link more -/

/-- The variable is too long for a path. -/
def RawDirectoryTooLong : Prop := ∃ value, h.l2sDir = some value ∧ pathMax ≤ value.length

instance : Decidable h.RawDirectoryTooLong :=
  match hdir : h.l2sDir with
  | none => isFalse fun ⟨_, hvalue, _⟩ => by simp [hdir] at hvalue
  | some value =>
    decidable_of_iff (pathMax ≤ value.length) (by simp [RawDirectoryTooLong, hdir])

/-- The name of the intermediate without its number: below the backing directory,
below the root, or beside the file. -/
def stemOfFile (original : CStr) : Except Errno CStr :=
  let filename := getFilename original
  match h.getL2sDirectory with
  | some directory =>
    match h.openDirectory with
    | .error e => .error e
    | .ok _ =>
      if pathMax ≤ directory.length + l2sPrefix.length + filename.length + 11 then
        .error .enametoolong
      else .ok (directory ++ ['/'] ++ l2sPrefix ++ filename)
  | none =>
    if h.l2sDir = some ['/'] then
      if pathMax ≤ 1 + l2sPrefix.length + filename.length + 11 then .error .enametoolong
      else .ok (['/'] ++ l2sPrefix ++ filename)
    else
      let directoryLength := original.length - filename.length
      if pathMax ≤ directoryLength + l2sPrefix.length + filename.length + 5 then
        .error .enametoolong
      else .ok (original.take directoryLength ++ l2sPrefix ++ filename)

/-- The search of a free name, with so many numbers left after this one. -/
def searchIntermediate (s : HostStore D) (stem : CStr) : ℕ → ℕ → CStr
  | 0, suffix => numbered stem suffix
  | left + 1, suffix =>
    if (h.l2sLstat s (numbered stem suffix)).isOk then searchIntermediate s stem left (suffix + 1)
    else numbered stem suffix

/-- The name that the search ends with.  The last number is taken unchecked. -/
def newIntermediate (s : HostStore D) (stem : CStr) : CStr :=
  h.searchIntermediate s stem (maxLinkSuffix - 2) 1

/-- The link at the destination.  If it fails, the source loses the link that it
got for it. -/
def destLink (s : HostStore D) (original intermediate : CStr) (dest : Except Errno CStr) :
    HostStore D × LinkAnswer :=
  match dest with
  | .error e => ((h.decrementLinkCount s (.ok original)).1, .failed e)
  | .ok dest =>
    match h.symlink s intermediate dest with
    | .error e => ((h.decrementLinkCount s (.ok original)).1, .failed e)
    | .ok s => (s, .done)

/-- The source becomes a link of the family. -/
def originalLink (s : HostStore D) (original intermediate : CStr) (dest : Except Errno CStr) :
    HostStore D × LinkAnswer :=
  match h.symlink s intermediate original with
  | .ok s => h.destLink s original intermediate dest
  | .error e =>
    if e = .eexist then h.destLink s original intermediate dest else (s, .failed e)

/-- The intermediate that is there leads to something. -/
def Usable (s : HostStore D) (intermediate : CStr) : Bool :=
  match h.l2sLstat s intermediate, h.myReadlink s intermediate with
  | .ok _, .ok existing => h.l2sAccess s existing
  | _, _ => false

/-- The intermediate that is there is used. -/
def reuse (s : HostStore D) (original intermediate : CStr) (dest : Except Errno CStr) :
    HostStore D × LinkAnswer :=
  let s' :=
    if h.access s original then s
    else match h.symlink s intermediate original with
      | .ok s' => s'
      | .error _ => s
  match dest with
  | .error e => (s', .failed e)
  | .ok dest =>
    match h.symlink s' intermediate dest with
    | .error e => (s', .failed e)
    | .ok s' => (s', .done)

/-- The data has moved to the final file: make the intermediate, and the links. -/
def makeFamily (s : HostStore D) (original intermediate final : CStr) (dest : Except Errno CStr) :
    HostStore D × LinkAnswer :=
  match h.l2sSymlink s final intermediate with
  | .ok s => h.originalLink s original intermediate dest
  | .error e =>
    if e = .eexist then
      if h.Usable s intermediate then h.reuse s original intermediate dest
      else
        -- A broken rest of a family gives way.
        let s' := match h.l2sUnlink s intermediate with
          | .ok s' => s'
          | .error _ => s
        match h.l2sSymlink s' final intermediate with
        | .ok s' => h.originalLink s' original intermediate dest
        | .error e => (s', .failed e)
    else (s, .failed e)

/-- The first link of a file. -/
def firstLink (s : HostStore D) (original stem : CStr) (dest : Except Errno CStr) :
    HostStore D × LinkAnswer :=
  let intermediate := h.newIntermediate s stem
  let final := firstFinal intermediate
  match h.l2sRename s original final with
  | .ok s => h.makeFamily s original intermediate final dest
  | .error e =>
    if e = .enoent then
      -- The source is gone: whoever took it may have made the family.
      match dest, h.l2sLstat s intermediate with
      | .ok dest, .ok _ =>
        match h.symlink s intermediate dest with
        | .ok s => (s, .done)
        | .error e => (s, .failed e)
      | _, _ => (s, .failed .enoent)
    else (s, .failed e)

/-- One more link of a family. -/
def nextLink (s : HostStore D) (original intermediate : CStr) (dest : Except Errno CStr) :
    HostStore D × LinkAnswer :=
  match h.myReadlink s intermediate with
  | .error e => (s, .failed e)
  | .ok final =>
    match parseL2sFinalCount final with
    | none => (s, .failed .einval)
    | some linkCount =>
      if maxLinkCount < linkCount + 1 then (s, .failed .emlink)
      else
        match h.recount s intermediate final (withLinkCount final (linkCount + 1)) with
        | (s, .error e) => (s, .failed e)
        | (s, .ok _) => h.destLink s original intermediate dest

def moveAndSymlinkPath (s : HostStore D) (src dest : Except Errno CStr) :
    HostStore D × LinkAnswer :=
  if dest.toOption.any isGitOdbLinkDest then (s, .kernel)
  else
    match src with
    | .error e => (s, .failed e)
    | .ok original =>
      if h.RawDirectoryTooLong then (s, .failed .enametoolong)
      else
        match h.l2sLstat s original with
        | .error e => (s, .failed e)
        | .ok .directory => (s, .failed .eperm)
        | .ok (.link _) =>
          match h.myReadlink s original with
          | .error e => (s, .failed e)
          | .ok intermediate =>
            if isL2sInternalPath intermediate then h.nextLink s original intermediate dest
            else if l2sPrefix.isPrefixOf (getFilename intermediate) then (s, .failed .einval)
            else h.firstLink s original intermediate dest
        | .ok (.file _) =>
          match h.stemOfFile original with
          | .error e => (s, .failed e)
          | .ok stem => h.firstLink s original stem dest

end L2sHost

end NeoProot.Link2symlink
