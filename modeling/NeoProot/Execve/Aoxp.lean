import NeoProot.Basic
import NeoProot.Tracee.Mem
import NeoProot.Lib.LittleEndian

/-!
# Arrays of pointers of a tracee

The arguments and the environment of an `execve` are arrays of pointers in the memory of
the tracee.  The tracer fetches such an array, edits it, and pushes it back below the
stack pointer.

## Main definitions

* `XPointer` — an entry: its address in the tracee, and the copy that the tracer has.
* `fetchArray` — the array as it stands in memory.
* `Edit`, `applyEdits` — the edits.
* `pushArray` — the array goes back.
-/

namespace NeoProot.Aoxp
open Mem

/-- The bytes of a C string, in front of its NUL. -/
abbrev Bytes := List UInt8

/-- `XPointer`: `remote` is an address of the tracee, or 0; `localCopy` what the tracer has
read or written. -/
structure XPointer where
  remote : ℕ
  localCopy : Option Bytes
  deriving DecidableEq, Repr

/-- An entry that memset has filled. -/
def XPointer.zero : XPointer := ⟨0, none⟩

/-- `ARG_MAX`. -/
def argMax : ℕ := 131072

/-- `ARM64_RED_ZONE`. -/
def redZone : ℕ := 128

/-- What the tracer works with: the ways to the memory, the memory, and what an array that
was made shorter has behind its new end, by its old entries, its new length and the
place. -/
structure Tracer where
  access : Access
  memory : TraceeMemory
  leftBehind : List XPointer → ℕ → ℕ → XPointer

/-- `native_strdup`. -/
def nativeStrdup (s : Bytes) : Bytes := s.takeWhile (· ≠ 0)

/-! ### Fetching -/

/-- The word at an address. -/
def wordAt (m : TraceeMemory) (a : ℕ) : ℕ := LittleEndian.decode (m.values a wordSize)

/-- `peek_word`, which reads the word one way or the other. -/
def peekWord (m : TraceeMemory) (a : ℕ) : Option ℕ :=
  if m.Mapped a wordSize then some (wordAt m a) else none

/-- `fetch_array_of_xpointers` without a limit, from entry `i` on. -/
def fetchLoop (m : TraceeMemory) (addr : ℕ) : ℕ → ℕ → Option (List XPointer)
  | 0, _ => none
  | fuel + 1, i =>
    match peekWord m (addr + i * wordSize) with
    | none => none
    | some ptr =>
      if ptr ≠ 0 then (fetchLoop m addr fuel (i + 1)).map (⟨ptr, none⟩ :: ·)
      else some [⟨ptr, none⟩]

def fetchArray (m : TraceeMemory) (addr fuel : ℕ) : Option (List XPointer) :=
  fetchLoop m addr fuel 0

/-! ### Editing -/

/-- `read_xpointee_as_string`: the array, and the string. -/
def readXPointeeAsString (t : Tracer) (xs : List XPointer) (index : ℕ) :
    List XPointer × Except Errno (Option Bytes) :=
  match xs[index]? with
  | none => (xs, .error .erange)
  | some x =>
    match x.localCopy with
    | some s => (xs, .ok (some s))
    | none =>
      if x.remote = 0 then (xs, .ok none)
      else
        match readString t.access t.memory x.remote argMax with
        | none => (xs, .error .efault)
        | some (status, tmp) =>
          if status < 0 then (xs, .error .efault)
          else if (argMax : ℤ) ≤ status then (xs, .error .enametoolong)
          else
            (xs.set index ⟨x.remote, some (nativeStrdup tmp)⟩, .ok (some (nativeStrdup tmp)))

/-- `write_xpointee_as_string`: a replacement has no address yet. -/
def writeXPointeeAsString (xs : List XPointer) (index : ℕ) (s : Bytes) :
    List XPointer × Except Errno Unit :=
  if xs.length ≤ index then (xs, .error .erange)
  else (xs.set index ⟨0, some (nativeStrdup s)⟩, .ok ())

/-- `write_xpointees`. -/
def writeXPointees (xs : List XPointer) (index : ℕ) :
    List Bytes → List XPointer × Except Errno Unit
  | [] => (xs, .ok ())
  | s :: strings =>
    match writeXPointeeAsString xs index s with
    | (xs, .error e) => (xs, .error e)
    | (xs, .ok _) => writeXPointees xs (index + 1) strings

/-- `resize_array_of_xpointers`.  The array is made shorter before its entries move, and an
array of no entries is refused: `talloc_realloc` gives nothing back for it. -/
def resizeArray (t : Tracer) (xs : List XPointer) (index : ℕ) (delta : ℤ) : List XPointer :=
  if delta = 0 ∨ xs.length + delta ≤ 0 then xs
  else
    let index := min index xs.length
    if 0 < delta then xs.take index ++ List.replicate delta.toNat XPointer.zero ++ xs.drop index
    else
      let newLength := xs.length - (-delta).toNat
      let moved := xs.take newLength ++
        (List.range' newLength (xs.length - newLength)).map (t.leftBehind xs newLength)
      xs.take (index - (-delta).toNat) ++ moved.drop index

/-- The edits of the interface. -/
inductive Edit
  | read (index : ℕ)
  | write (index : ℕ) (strings : List Bytes)
  | resize (index : ℕ) (delta : ℤ)
  deriving DecidableEq, Repr

/-- The array after an edit. -/
def applyEdit (t : Tracer) (xs : List XPointer) : Edit → List XPointer
  | .read index => (readXPointeeAsString t xs index).1
  | .write index strings => (writeXPointees xs index strings).1
  | .resize index delta => resizeArray t xs index delta

def applyEdits (t : Tracer) (xs : List XPointer) (edits : List Edit) : List XPointer :=
  edits.foldl (applyEdit t) xs

/-! ### Pushing -/

/-- The stack pointer, now and at the entry of the call, and the register of the array. -/
structure Regs where
  sp : ℕ
  originalSp : ℕ
  arg : ℕ
  deriving DecidableEq, Repr

/-- The string of a replaced entry. -/
def XPointer.replaced (x : XPointer) : Option Bytes :=
  if x.remote = 0 then x.localCopy else none

/-- `alloc_mem` of some bytes: the new stack pointer, or 0. -/
def allocMem (regs : Regs) (size : ℕ) : ℕ :=
  let size := if regs.sp = regs.originalSp then size + redZone else size
  if 0 < size ∧ regs.sp ≤ size then 0 else regs.sp - size

/-- `writev_data`. -/
def writevData (access : Access) (m : TraceeMemory) (dest : ℕ) :
    List (List UInt8) → TraceeMemory × Bool
  | [] => (m, true)
  | buf :: bufs =>
    match writeData access m dest buf with
    | (m, false) => (m, false)
    | (m, true) => writevData access m (dest + buf.length) bufs

/-- The second pass: the addresses of the entries, the first replaced string at `off`. -/
def pod (base : ℕ) : ℕ → List XPointer → List ℕ
  | _, [] => []
  | off, x :: xs =>
    match x.replaced with
    | some s => (base + off) :: pod base (off + (s.length + 1)) xs
    | none => x.remote :: pod base off xs

/-- The replaced strings with their NUL, in their order. -/
def strings (xs : List XPointer) : List (List UInt8) :=
  (xs.filterMap XPointer.replaced).map (· ++ [0])

/-- Why an array is not pushed: `E2BIG`, or the error of a write. -/
inductive PushError
  | tooBig
  | fault
  deriving DecidableEq, Repr

/-- `push_array_of_xpointers`: the memory and the registers. -/
def pushArray (t : Tracer) (regs : Regs) (xs : List XPointer) :
    Except PushError (TraceeMemory × Regs) :=
  -- No entry is replaced: the register stays as it is.
  if strings xs = [] then .ok (t.memory, regs)
  else
    let total := wordSize * xs.length + (strings xs).flatten.length
    let base := allocMem regs total
    if base = 0 then .error .tooBig
    else
      let words := (pod base (wordSize * xs.length) xs).map (LittleEndian.encode wordSize)
      match writevData t.access t.memory base (words.flatten :: strings xs) with
      | (_, false) => .error .fault
      | (m, true) => .ok (m, { regs with sp := base, arg := base })

end NeoProot.Aoxp
