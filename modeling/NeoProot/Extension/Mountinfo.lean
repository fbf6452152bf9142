import NeoProot.Syscall.Mount
import NeoProot.Lib.Octal
import NeoProot.Lib.Lines
import Mathlib.Algebra.Ring.Nat

/-!
# The mount points a guest reads

A guest whose root lies on `/data` gets a copy of its `/proc/PID/mountinfo`.  The record of
`/data` is written with the mount point `/`, the records of the system's own mount points
are copied, and every binding is written as a record with an identifier that lies above all
of those read.  A reader splits a record at its spaces and undoes the octal escapes.

## Main definitions

* `writeMountinfoPath` — a path with its octal escapes.
* `fakeMountinfo` — the text of the copy.
* `mountinfoCheckOpenPath` — which file is opened.
* `Record`, `parse` — what a reader makes of a text.
-/

namespace NeoProot.Mountinfo
open Octal Lines

/-! ### The functions of the extension -/

/-- `write_mountinfo_path`. -/
def writeMountinfoPath (path : CStr) : CStr :=
  path.flatMap fun c =>
    if c = ' ' then str "\\040"
    else if c = '\\' then str "\\134"
    else if c = '\t' then str "\\011"
    else if c = '\n' then str "\\012"
    else [c]

/-- What `getline(3)` returns until the end of the file, each line with its newline. -/
def getlines : CStr → List CStr
  | [] => []
  | c :: cs =>
    if c = '\n' then ['\n'] :: getlines cs
    else match getlines cs with
      | [] => [[c]]
      | line :: ls => (c :: line) :: ls

/-- `p = strchr(p, ' ')`, and the character behind it. -/
def behindSpace (p : CStr) : Option CStr :=
  match p.dropWhile (· ≠ ' ') with
  | [] => none
  | _ :: p => some p

/-- The places `p` and `end` around the fifth field of a line. -/
def fifthField (line : CStr) : Option (CStr × CStr) := do
  let p ← behindSpace line
  let p ← behindSpace p
  let p ← behindSpace p
  let p ← behindSpace p
  match p.dropWhile (· ≠ ' ') with
  | [] => none
  | end' => some (p, end')

/-- What stands between the two places. -/
def between (place : CStr × CStr) : CStr := place.1.take (place.1.length - place.2.length)

def uintMax : ℕ := 2 ^ 32 - 1
def ulongMax : ℕ := 2 ^ 64 - 1

/-- `strtoul(3)` in base 10: the number, and whether `errno` stays zero; none where it reads
no digit. -/
def strtoul (s : CStr) : Option (ℕ × Bool) :=
  match numberParts s with
  | (_, []) => none
  | (negative, ds) =>
    if ulongMax < decimalValue ds then some (ulongMax, false)
    else if negative then some ((2 ^ 64 - decimalValue ds) % 2 ^ 64, true)
    else some (decimalValue ds, true)

/-- The line is about the mount point the guest's root lies on. -/
def isDataLine (line : CStr) : Bool :=
  match fifthField line with
  | none => false
  | some place => between place == str "/data"

/-- `root_mount_id`, as the first loop leaves it on the line of `/data`. -/
def rootMountId (line : CStr) : ℕ :=
  match strtoul line with
  | none => 0
  | some (parsedId, _) => if 0 < parsedId ∧ parsedId ≤ uintMax then parsedId else 0

/-- The line of `/data` as the first loop writes it. -/
def rootLine (line : CStr) : CStr :=
  match fifthField line with
  | none => []
  | some (p, end') => line.take (line.length - p.length) ++ '/' :: end'

/-- The mount points whose lines the second loop copies. -/
def isKeptField (field : CStr) : Bool :=
  field == str "/dev" || (str "/dev/").isPrefixOf field || field == str "/proc" ||
    field == str "/sys" || (str "/sys/").isPrefixOf field || field == str "/tmp"

def isKeptLine (line : CStr) : Bool :=
  match fifthField line with
  | none => false
  | some place => isKeptField (between place)

/-- The third loop: `mount_id` is moved past every identifier. -/
def firstMountId (ls : List CStr) : ℕ :=
  ls.foldl (fun mountId line =>
    match strtoul line with
    | some (parsedId, true) =>
      if parsedId < uintMax ∧ mountId ≤ parsedId then parsedId + 1 else mountId
    | _ => mountId) 100000

/-- `mount_id++`. -/
def nextId (mountId : ℕ) : ℕ := (mountId + 1) % 2 ^ 32

/-- `printf("%u", n)`. -/
def printUnsigned (n : ℕ) : CStr := Nat.toDigits 10 n

def msNosuid : UInt64 := 2
def msNodev : UInt64 := 4

def isNosuid (b : Binding) : Bool := b.mountFlags &&& msNosuid ≠ 0
def isNodev (b : Binding) : Bool := b.mountFlags &&& msNodev ≠ 0

/-- The mount points that are published without a binding. -/
def isReserved (path : CStr) : Bool :=
  path == str "/" || path == str "/dev" || path == str "/proc" || path == str "/sys" ||
    path == str "/tmp"

/-- The bindings that the loop over the bindings does not pass by. -/
def isPublished (b : Binding) : Bool := b.mountKind ≠ .internal && ! isReserved b.guest

/-- What both loops over the bindings write first: `"%u %u 0:1 / "`. -/
def lineStart (mountId rootId : ℕ) : CStr :=
  printUnsigned mountId ++ ' ' :: printUnsigned rootId ++ str " 0:1 / "

/-- The line of a binding. -/
def bindingLine (rootId mountId : ℕ) (b : Binding) : CStr :=
  lineStart mountId rootId ++ writeMountinfoPath b.guest ++
    (' ' :: (if b.readonly then str "ro" else str "rw") ++
      (if isNosuid b then str ",nosuid" else []) ++ (if isNodev b then str ",nodev" else []) ++
        str " - none none rw\n")

/-- The loop over the bindings: its text and the next identifier. -/
def bindingLines (rootId : ℕ) : ℕ → List Binding → CStr × ℕ
  | mountId, [] => ([], mountId)
  | mountId, b :: bs =>
    if isPublished b then
      let rest := bindingLines rootId (nextId mountId) bs
      (bindingLine rootId mountId b ++ rest.1, rest.2)
    else bindingLines rootId mountId bs

/-- The line of the directory behind a tmpfs. -/
def tmpfsLine (rootId mountId : ℕ) (b : Binding) : CStr :=
  lineStart mountId rootId ++ writeMountinfoPath b.host ++ str " rw - tmpfs tmpfs rw\n"

/-- The tmpfs bindings whose directory is that of none of `seen`. -/
def isNewTmpfs (seen : List Binding) (b : Binding) : Bool :=
  b.mountKind = .tmpfs && ! seen.any fun s => s.mountKind = .tmpfs && s.host == b.host

/-- The loop over the tmpfs bindings. -/
def tmpfsLines (rootId : ℕ) : ℕ → List Binding → List Binding → CStr
  | _, _, [] => []
  | mountId, seen, b :: bs =>
    if isNewTmpfs seen b then
      tmpfsLine rootId mountId b ++ tmpfsLines rootId (nextId mountId) (seen ++ [b]) bs
    else tmpfsLines rootId mountId (seen ++ [b]) bs

/-- The text of the copy, from the real text and the guest bindings; none where no line is
about `/data`. -/
def fakeMountinfo (real : CStr) (bindings : List Binding) : Option CStr :=
  let ls := getlines real
  match ls.find? isDataLine with
  | none => none
  | some line =>
    let kept := rootLine line ++ (ls.filter isKeptLine).flatten
    let rootId := rootMountId line
    if rootId = 0 then some kept
    else
      let published := bindingLines rootId (firstMountId ls) bindings
      some (kept ++ published.1 ++ tmpfsLines rootId published.2 [] bindings)

/-! ### What a reader makes of a text -/

/-- A record of the file.  The two paths are as they stand in it. -/
structure Record where
  mountId : ℕ
  parentId : ℕ
  device : CStr
  root : CStr
  mountField : CStr
  options : CStr
  rest : List CStr
  deriving DecidableEq, Repr

namespace Record

/-- The mount point. -/
def mountPoint (r : Record) : CStr := unescape r.mountField

/-- The mount has an option. -/
def hasOption (r : Record) (option : CStr) : Bool := (r.options.splitOn ',').contains option

/-- The record has the mount point and the options of a binding. -/
def describes (r : Record) (b : Binding) : Bool :=
  r.mountPoint == b.guest && r.hasOption (str "ro") == b.readonly &&
    r.hasOption (str "nosuid") == isNosuid b && r.hasOption (str "nodev") == isNodev b

end Record

/-- A number of a record. -/
def readNumber (field : CStr) : Option ℕ :=
  if field ≠ [] ∧ field.all Char.isDigit then some (decimalValue field) else none

/-- The fields of a line: six, optional ones up to a dash, and three of the file system. -/
def parseLine (line : CStr) : Option Record :=
  match line.splitOn ' ' with
  | mountId :: parentId :: device :: root :: mountField :: options :: rest =>
    if (rest.dropWhile (· ≠ ['-'])).length = 4 then
      match readNumber mountId, readNumber parentId with
      | some mountId, some parentId =>
        some { mountId, parentId, device, root, mountField, options, rest }
      | _, _ => none
    else none
  | _ => none

/-- The records of a text of lines. -/
def parse (text : CStr) : Option (List Record) := readLines '\n' parseLine text

end NeoProot.Mountinfo
