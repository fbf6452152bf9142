import NeoProot.Execve.Aoxp
import Mathlib.Data.List.DropRight

/-!
# Scripts

The kernel does not run a script for a tracee: the tracer looks for the interpreter itself,
and puts the interpreter, its argument and the script in front of the arguments of the call.
An interpreter can be a script again.

## Main definitions

* `World` — what the tracer finds behind a path of the tracee.
* `extractShebang` — the interpreter and its argument.
* `expandLoop`, `expandShebang` — the chain of interpreters.
-/

namespace NeoProot.Shebang
open Aoxp Mem

/-- Why a call fails: `ENOEXEC`, `ETXTBSY`, `E2BIG`, or one of the other errors. -/
inductive ExecError
  | noexec
  | busy
  | tooBig
  | of (e : Errno)
  deriving DecidableEq, Repr

/-- A file of the host: whether it is a directory, whether somebody writes to it, why it
cannot be opened for reading, and its bytes. -/
structure File where
  directory : Bool
  busy : Bool
  refused : Option Errno
  content : Bytes

/-- Where the paths of the tracee lead to, whether `access` lets it be executed, and the
files of the host. -/
structure World where
  translate : Bytes → Except Errno Bytes
  access : Bytes → Option Errno
  file : Bytes → File

/-- `BINPRM_BUF_SIZE`. -/
def binprmBufSize : ℕ := 256

/-- `MAXSYMLINKS`. -/
def maxSymlinks : ℕ := 20

/-- `translate_and_check_exec`: the path of the host. -/
def World.translateAndCheckExec (w : World) (user : Bytes) : Except ExecError Bytes :=
  if user = [] then .error .noexec
  else
    match w.translate user with
    | .error e => .error (.of e)
    | .ok host =>
      match w.access host with
      | some e => .error (.of (if e = .enoent then .enoent else .eacces))
      | none => .ok host

/-- `open` and `read` of the first bytes.  A directory can be opened, and nothing is read
from it. -/
def World.readStart (w : World) (host : Bytes) : Except ExecError Bytes :=
  match (w.file host).refused with
  | some e => .error (.of e)
  | none => .ok (if (w.file host).directory then [] else (w.file host).content.take binprmBufSize)

/-- `' '` or `'\t'`. -/
def isBlank (b : UInt8) : Bool := b = 32 || b = 9

/-- `'\n'` or `'\r'`. -/
def isLineEnd (b : UInt8) : Bool := b = 10 || b = 13

/-- `"#!"`. -/
def magic : Bytes := [35, 33]

/-- The loops of `extract_shebang`: the path and the argument, as C strings. -/
def shebangLine (text : Bytes) : Bytes × Bytes :=
  let line := text.dropWhile isBlank
  let userPath := line.takeWhile fun b => !(isBlank b || isLineEnd b)
  match line.dropWhile fun b => !(isBlank b || isLineEnd b) with
  | [] => (nativeStrdup userPath, [])
  | b :: rest =>
    if isLineEnd b then (nativeStrdup userPath, [])
    else
      let argument := ((b :: rest).dropWhile isBlank).takeWhile fun b => !isLineEnd b
      (nativeStrdup userPath, nativeStrdup (argument.rdropWhile isBlank))

/-- `extract_shebang`: none if the file is no script. -/
def extractShebang (buf : Bytes) : Option (Bytes × Bytes) :=
  if buf.take 2 = magic then some (shebangLine (buf.drop 2)) else none

/-- The edits of a round: the first argument is replaced by the interpreter, its argument if
it has one, and the path of the script. -/
def insertScript (t : Tracer) (xs : List XPointer) (userPath argument oldUserPath : Bytes) :
    Except Errno (List XPointer) :=
  let edited :=
    if argument ≠ [] then
      writeXPointees (resizeArray t xs 0 2) 0 [userPath, argument, oldUserPath]
    else writeXPointees (resizeArray t xs 0 1) 0 [userPath, oldUserPath]
  match edited with
  | (_, .error e) => .error e
  | (xs, .ok _) => .ok xs

/-- The rounds of `expand_shebang`: the path, and the arguments from the first script on.
`fetched` is what the tracer reads at the array of the call. -/
def expandLoop (w : World) (t : Tracer) (fetched : Option (List XPointer)) :
    ℕ → Bytes → Option (List XPointer) → Except ExecError (Bytes × Option (List XPointer))
  | 0, _, _ => .error (.of .eloop)
  | n + 1, oldUserPath, argv =>
    match w.translateAndCheckExec oldUserPath with
    | .error e => .error e
    | .ok host =>
      match w.readStart host with
      | .error e => .error e
      | .ok buf =>
        match extractShebang buf with
        | none => .ok (oldUserPath, argv)
        | some (userPath, argument) =>
          match w.translateAndCheckExec userPath with
          | .error e => .error e
          | .ok _ =>
            match argv.or fetched with
            | none => .error (.of .efault)
            | some xs =>
              match insertScript t xs userPath argument oldUserPath with
              | .error e => .error (.of e)
              | .ok xs => expandLoop w t fetched n userPath (some xs)

/-- What `expand_shebang` leaves: the path to execute, the memory, the registers, and
whether there was a script. -/
structure Expanded where
  userPath : Bytes
  memory : TraceeMemory
  regs : Regs
  hasShebang : Bool

/-- `expand_shebang`. -/
def expandShebang (w : World) (t : Tracer) (regs : Regs) (fuel : ℕ) (userPath : Bytes) :
    Except ExecError Expanded :=
  match expandLoop w t (fetchArray t.memory regs.arg fuel) maxSymlinks userPath none with
  | .error e => .error e
  | .ok (userPath, none) => .ok ⟨userPath, t.memory, regs, false⟩
  | .ok (userPath, some argv) =>
    match pushArray t regs argv with
    | .error .tooBig => .error .tooBig
    | .error .fault => .error (.of .efault)
    | .ok (m, regs) => .ok ⟨userPath, m, regs, true⟩

end NeoProot.Shebang
