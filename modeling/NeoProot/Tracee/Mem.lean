import NeoProot.Lib.PagedMemory
import Mathlib.Data.List.TakeDrop
import Mathlib.Data.Nat.Init

/-!
# Reading and writing the memory of a tracee

The tracer copies bytes with one call of `process_vm_readv` or `process_vm_writev` where
that is worth it and the kernel serves it, and word by word through `ptrace` otherwise.
Addresses are numbers: the last pages of the address space belong to the kernel, so that a
range never goes around its end.

## Main definitions

* `Access` — which of the ways there are.
* `peekData`, `pokeData` — a word through `ptrace`.
* `writeData`, `readData`, `readString` — the three functions.
-/

namespace NeoProot.Mem

/-- The memory of a tracee. -/
abbrev TraceeMemory := PagedMemory UInt8

/-- Whether the build has the vectored calls for strings, and whether the kernel serves
these calls. -/
structure Access where
  haveProcessVm : Bool
  vectored : Bool
  deriving DecidableEq, Repr

/-- `VM_FAST_THRESHOLD`. -/
def vmFastThreshold : ℕ := 32 * 1024

/-- `SHORT_STRING_MAX`. -/
def shortStringMax : ℕ := 256

/-- `sizeof(word_t)`. -/
def wordSize : ℕ := 8

variable (access : Access) (m : TraceeMemory)

/-- `PTRACE_PEEKDATA`. -/
def peekData (a : ℕ) : Option (List UInt8) :=
  if m.Mapped a wordSize then some (m.values a wordSize) else none

/-- `PTRACE_POKEDATA`: the memory, and whether the word was written. -/
def pokeData (a : ℕ) (word : List UInt8) : TraceeMemory × Bool :=
  (m.putMapped a word, decide (m.Mapped a word.length))

/-! ### Writing -/

/-- The bytes behind the last full word: the rest of their word is read first. -/
def writeTail (m : TraceeMemory) (a : ℕ) (src : List UInt8) : TraceeMemory × Bool :=
  if src = [] then (m, true)
  else
    match peekData m a with
    | none => (m, false)
    | some tailWord => pokeData m a (src ++ tailWord.drop src.length)

/-- So many full words, and the bytes behind them. -/
def writeWords : ℕ → TraceeMemory → ℕ → List UInt8 → TraceeMemory × Bool
  | 0, m, a, src => writeTail m a src
  | nbFullWords + 1, m, a, src =>
    match pokeData m a (src.take wordSize) with
    | (m, false) => (m, false)
    | (m, true) => writeWords nbFullWords m (a + wordSize) (src.drop wordSize)

/-- `process_vm_writev`: the memory, and whether every byte was written. -/
def processVmWritev (a : ℕ) (src : List UInt8) : TraceeMemory × Bool :=
  if access.vectored then (m.putMapped a src, decide (m.Mapped a src.length)) else (m, false)

/-- `write_data`: the memory, and whether it succeeded. -/
def writeData (a : ℕ) (src : List UInt8) : TraceeMemory × Bool :=
  if src.length = 0 then (m, true)
  else
    match (if vmFastThreshold ≤ src.length then processVmWritev access m a src else (m, false)) with
    | (m, true) => (m, true)
    | (m, false) => writeWords (src.length / wordSize) m a src

/-! ### Reading -/

/-- So many full words, and some bytes of the word behind them. -/
def readWords : ℕ → ℕ → ℕ → Option (List UInt8)
  | 0, a, nbTrailingBytes =>
    if nbTrailingBytes = 0 then some []
    else (peekData m a).map fun tailWord => tailWord.take nbTrailingBytes
  | nbFullWords + 1, a, nbTrailingBytes =>
    match peekData m a with
    | none => none
    | some word => (readWords nbFullWords (a + wordSize) nbTrailingBytes).map (word ++ ·)

/-- `process_vm_readv`, of the whole range. -/
def processVmReadv (a size : ℕ) : Option (List UInt8) :=
  if access.vectored ∧ m.Mapped a size then some (m.values a size) else none

/-- `read_data`: the bytes, if it succeeded. -/
def readData (a size : ℕ) : Option (List UInt8) :=
  if size = 0 then some []
  else
    match (if vmFastThreshold ≤ size then processVmReadv access m a size else none) with
    | some dest => some dest
    | none => readWords m (size / wordSize) a (size % wordSize)

/-! ### Strings -/

/-- `neon_find_zero_fast`: the place of the first NUL, or the length. -/
def findZero (buf : List UInt8) : ℕ := buf.findIdx (· == 0)

/-- A string word by word: its length, and what was copied. -/
def stringWords : ℕ → ℕ → ℕ → Option (ℕ × List UInt8)
  | 0, a, nbTrailingBytes =>
    if nbTrailingBytes = 0 then some (0, [])
    else
      match peekData m a with
      | none => none
      | some word =>
        let zeroOff := findZero (word.take nbTrailingBytes)
        if zeroOff < nbTrailingBytes then some (zeroOff + 1, word.take nbTrailingBytes)
        else some (nbTrailingBytes, word.take nbTrailingBytes)
  | nbFullWords + 1, a, nbTrailingBytes =>
    match peekData m a with
    | none => none
    | some word =>
      if findZero word < wordSize then some (findZero word + 1, word)
      else
        (stringWords nbFullWords (a + wordSize) nbTrailingBytes).map fun rest =>
          (wordSize + rest.1, word ++ rest.2)

/-- A string page by page: its length, and what was copied.  Nothing, if a page cannot be
read or there is no NUL. -/
def stringPages : ℕ → ℕ → ℕ → Option (ℕ × List UInt8)
  | 0, _, _ => none
  | fuel + 1, a, left =>
    if left = 0 then none
    else
      let copySize := min (m.pageSize - a % m.pageSize) left
      match processVmReadv access m a copySize with
      | none => none
      | some chunk =>
        if findZero chunk < copySize then some (findZero chunk + 1, chunk)
        else
          (stringPages fuel (a + copySize) (left - copySize)).map fun rest =>
            (copySize + rest.1, chunk ++ rest.2)

/-- `static_cast<int>`. -/
def toInt (n : ℕ) : ℤ := Int.bmod n (2 ^ 32)

/-- `read_string`: what it returns, and what was copied, if it succeeded. -/
def readString (a maxSize : ℕ) : Option (ℤ × List UInt8) :=
  if maxSize = 0 then some (0, [])
  else
    let found :=
      if maxSize ≤ shortStringMax ∨ access.haveProcessVm = false then none
      else stringPages access m maxSize a maxSize
    match found with
    | some (length, dest) => some (toInt length, dest)
    | none =>
      (stringWords m (maxSize / wordSize) a (maxSize % wordSize)).map fun result =>
        (toInt result.1, result.2)

end NeoProot.Mem
