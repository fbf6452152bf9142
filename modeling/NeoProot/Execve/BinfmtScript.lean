import NeoProot.Execve.Shebang

/-!
# The script loader of the kernel

`load_script` reads the first line of a script on its own terms: only a newline ends it, a
path that does not end within the buffer is none, and what stands behind the buffer's last
byte but one is cut off.

## Main definitions

* `loadScript` — the interpreter and its argument, for the kernel.
* `execScript` — the path that is executed and its arguments, for the kernel.
-/

namespace NeoProot.Shebang
open Aoxp

/-- The buffer of the loader, which is filled with NUL behind the end of a file. -/
def binprmBuf (content : Bytes) : Bytes :=
  content.take binprmBufSize ++ List.replicate (binprmBufSize - content.length) 0

/-- What ends a path: a blank or a NUL. -/
def isTerminator (b : UInt8) : Bool := isBlank b || b = 0

/-- The line without the blanks at its end, from the text behind `#!`. -/
def scriptLine (text : Bytes) : Option Bytes :=
  -- The search for the newline stops at a NUL.
  if 10 ∈ text.takeWhile (· ≠ 0) then some ((text.takeWhile (· ≠ 10)).rdropWhile isBlank)
  else if (text.dropWhile isBlank).any isTerminator then
    some ((text.take (binprmBufSize - 3)).rdropWhile isBlank)
  else none

/-- The path and the argument of a line. -/
def splitLine (line : Bytes) : Option (Bytes × Option Bytes) :=
  let line := line.dropWhile isBlank
  if line = [] then none
  else
    let name := line.takeWhile fun b => !isTerminator b
    match line.dropWhile fun b => !isTerminator b with
    | [] => some (name, none)
    | b :: rest =>
      if b = 0 then some (name, none)
      else some (name, some (nativeStrdup ((b :: rest).dropWhile isBlank)))

/-- `load_script` up to the opening of the interpreter: none if the file is no script. -/
def loadScript (content : Bytes) : Except ExecError (Option (Bytes × Option Bytes)) :=
  if (binprmBuf content).take 2 ≠ magic then .ok none
  else
    match (scriptLine ((binprmBuf content).drop 2)).bind splitLine with
    | none => .error .noexec
    | some line => .ok (some line)

/-- `open_exec`: the bytes of the file. -/
def World.openExec (w : World) (path : Bytes) : Except ExecError Bytes :=
  match w.translate path with
  | .error e => .error (.of e)
  | .ok host =>
    match w.access host with
    | some e => .error (.of e)
    | none =>
      if (w.file host).directory then .error (.of .eacces)
      else if (w.file host).busy then .error .busy
      else .ok (w.file host).content

/-- The handlers of the kernel, one after the other. -/
def execLoop (w : World) : ℕ → Bytes → Bytes → List Bytes → Except ExecError (Bytes × List Bytes)
  | 0, _, _, _ => .error (.of .eloop)
  | n + 1, path, content, argv =>
    match loadScript content with
    | .error e => .error e
    | .ok none => .ok (path, argv)
    | .ok (some (name, argument)) =>
      match w.openExec name with
      | .error e => .error e
      | .ok content => execLoop w n name content (name :: argument.toList ++ path :: argv.tail)

/-- How many handlers there are: five scripts, and what the last of them names. -/
def maxHandlers : ℕ := 6

/-- `execve` of the kernel: the path that is executed in the end, and the arguments. -/
def execScript (w : World) (path : Bytes) (argv : List Bytes) :
    Except ExecError (Bytes × List Bytes) :=
  if path = [] then .error (.of .enoent)
  else
    match w.openExec path with
    | .error e => .error e
    | .ok content => execLoop w maxHandlers path content argv

end NeoProot.Shebang
