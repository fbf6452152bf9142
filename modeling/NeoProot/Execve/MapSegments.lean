import NeoProot.Execve.LoadScript
import NeoProot.Lib.Overlay
import Mathlib.Algebra.Ring.Nat

/-!
# Segments of a program

The tracer turns the `PT_LOAD` headers of a program into mappings, moves these if the program
is position-independent, and the loader maps them one after the other.

## Main definitions

* `mapSegment` — the mappings of a header.
* `ElfImage.mappings` — the mappings of a program, where it is loaded.
* `runStatement` — a mapping of the loader.
-/

namespace NeoProot.MapSegments
open LoadScript Mem

/-- The page size: `sysconf(_SC_PAGE_SIZE)`, a power of two up to 2 MiB. -/
structure PageSize where
  bits : ℕ
  le : bits ≤ 21

/-- The size of a page. -/
def PageSize.size (page : PageSize) : ℕ := 2 ^ page.bits

/-- `page_size`. -/
def PageSize.word (page : PageSize) : UInt64 := .ofNat page.size

/-- `page_mask`. -/
def PageSize.mask (page : PageSize) : UInt64 := ~~~(page.word - 1)

/-- The fields of a `PT_LOAD` header. -/
structure ProgramHeader where
  flags : UInt64
  offset : UInt64
  vaddr : UInt64
  filesz : UInt64
  memsz : UInt64
  deriving DecidableEq, Repr

/-- `PROT_WRITE`, and `PF_W`. -/
def writeBit : UInt64 := 2

/-- The protection of the pages: `PF_R`, `PF_W` and `PF_X` in the order of `mmap`. -/
def protOf (flags : UInt64) : UInt64 :=
  (if flags &&& 4 ≠ 0 then 1 else 0) ||| (if flags &&& writeBit ≠ 0 then writeBit else 0) |||
    (if flags &&& 1 ≠ 0 then 4 else 0)

/-- `MAP_PRIVATE | MAP_FIXED`. -/
def mapFixed : UInt64 := 0x12

/-- `map_segment`: what it appends to the mappings. -/
def mapSegment (page : PageSize) (ph : ProgramHeader) : List Mapping :=
  let start := ph.vaddr &&& page.mask
  let stop := (ph.vaddr + ph.filesz + page.word) &&& page.mask
  let file : Mapping :=
    { addr := start
      length := stop - start
      clearLength := if ph.filesz < ph.memsz then stop - ph.vaddr - ph.filesz else 0
      prot := protOf ph.flags
      flags := mapFixed
      offset := ph.offset &&& page.mask }
  let newStop := (ph.vaddr + ph.memsz + page.word) &&& page.mask
  if ph.filesz < ph.memsz ∧ stop < newStop then
    [file,
      { addr := stop
        length := newStop - stop
        clearLength := 0
        prot := protOf ph.flags
        flags := mapFixed ||| mapAnonymous
        offset := 0 }]
  else [file]

/-- The program itself, or its interpreter. -/
inductive Role
  | main
  | interp
  deriving DecidableEq, Repr

/-- `EXEC_PIC_ADDRESS`, `INTERP_PIC_ADDRESS`. -/
def Role.base : Role → UInt64
  | .main => 0x3000000000
  | .interp => 0x3f00000000

/-- What the tracer reads of a program, and the bytes of its file. -/
structure ElfImage where
  role : Role
  positionIndependent : Bool
  phoff : UInt64
  headers : List ProgramHeader
  bytes : List UInt8

/-- `apply_load_base`. -/
def applyLoadBase (base : UInt64) (mappings : List Mapping) : List Mapping :=
  mappings.map fun m => { m with addr := m.addr + base }

/-- What `compute_load_addresses` adds. -/
def ElfImage.loadBase (img : ElfImage) (page : PageSize) : UInt64 :=
  match img.headers.flatMap (mapSegment page) with
  | [] => 0
  | first :: _ => if img.positionIndependent ∧ first.addr = 0 then img.role.base else 0

/-- The mappings of the program. -/
def ElfImage.mappings (img : ElfImage) (page : PageSize) : List Mapping :=
  applyLoadBase (img.loadBase page) (img.headers.flatMap (mapSegment page))

/-- `at_phdr`: the offset of the headers behind the first mapping. -/
def ElfImage.atPhdr (img : ElfImage) (page : PageSize) : Option UInt64 :=
  (img.mappings page).head?.map fun first => img.phoff + first.addr

/-! ### The loader -/

/-- The largest range that `clear` clears. -/
def maxClear : ℕ := 2 * 1024 * 1024

/-- The largest offset in a file. -/
def maxFile : ℕ := 2 ^ 63 - 1

/-- A byte of the file, or of the rest of its last page. -/
def fileByte (bytes : List UInt8) (offset : ℕ) : UInt8 := bytes[offset]?.getD 0

/-- `mmap` at an address. -/
def mmapFixed (m : TraceeMemory) (addr length : UInt64) (content : ℕ → UInt8) : TraceeMemory :=
  m.overlay ⟨addr.toNat / m.pageSize, (addr.toNat + length.toNat - 1) / m.pageSize, content⟩

/-- A mapping of `_start`.  The loader gives up where `mmap` does not map at the address, and
is killed where it clears a page that it cannot write, or that is behind the end of the
file. -/
def runStatement (bytes : List UInt8) (m : TraceeMemory) : Statement → Option TraceeMemory
  | .mmapFile addr length prot offset clearLength =>
    if addr.toNat % m.pageSize ≠ 0 ∨ offset.toNat % m.pageSize ≠ 0 ∨ length = 0 ∨
        maxFile < offset.toNat + length.toNat then none
    else
      let mapped := mmapFixed m addr length fun x =>
        fileByte bytes (offset.toNat + (x - addr.toNat))
      if clearLength = 0 ∨ maxClear < clearLength.toNat then some mapped
      else if prot &&& writeBit ≠ 0 ∧
          (offset.toNat + length.toNat - 1) / m.pageSize * m.pageSize < bytes.length then
        some (mapped.put (addr.toNat + length.toNat - clearLength.toNat)
          (List.replicate clearLength.toNat 0))
      else none
  | .mmapAnon addr length _ _ _ =>
    if addr.toNat % m.pageSize ≠ 0 ∨ length = 0 then none
    else some (mmapFixed m addr length fun _ => 0)
  -- The other statements map nothing.
  | _ => some m

/-- The statements, one after the other. -/
def runStatements (bytes : List UInt8) : TraceeMemory → List Statement → Option TraceeMemory
  | m, [] => some m
  | m, statement :: statements =>
    match runStatement bytes m statement with
    | none => none
    | some m => runStatements bytes m statements

/-- The mappings of a program are mapped. -/
def ElfImage.load (img : ElfImage) (page : PageSize) (m : TraceeMemory) : Option TraceeMemory :=
  runStatements img.bytes m (transcriptMappings (img.mappings page))

end NeoProot.MapSegments
