import NeoProot.Execve.MapSegments
import NeoProot.Execve.Shebang
import NeoProot.Lib.Layout

/-!
# The headers of a program

At the entry of an `execve` the tracer reads the headers of the program and of its interpreter,
since it is its own loader, and not the kernel, that will map them.

## Main definitions

* `ElfHeader64`, `ProgramHeader64` — the headers, as they are in the file.
* `openElf`, `iterateProgramHeaders` — they are read.
* `extractLoadInfo` — what is to be loaded of a file.
* `loadProgram` — the program and its interpreter.
-/

namespace NeoProot.ElfLoad
open LittleEndian MapSegments Shebang Aoxp LoadScript

/-! ### The headers -/

/-- The fields of `ElfHeader64` that are read. -/
structure ElfHeader64 where
  ident : List UInt8
  type : UInt16
  entry : UInt64
  phoff : UInt64
  phentsize : UInt16
  phnum : UInt16
  deriving DecidableEq, Repr

/-- `EI_NIDENT`. -/
def eiNident : ℕ := 16

/-- The widths of the fields behind `e_ident`. -/
def ElfHeader64.widths : List ℕ := [2, 2, 4, 8, 8, 8, 4, 2, 2, 2, 2, 2, 2]

/-- `sizeof(ElfHeader)`. -/
def elfHeaderSize : ℕ := eiNident + ElfHeader64.widths.sum

/-- The header at the beginning of a file. -/
def ElfHeader64.decode (bytes : List UInt8) : ElfHeader64 :=
  let fields := decodeAll widths (bytes.drop eiNident)
  ⟨bytes.take eiNident, .ofNat (fields.getD 0 0), .ofNat (fields.getD 3 0),
    .ofNat (fields.getD 4 0), .ofNat (fields.getD 8 0), .ofNat (fields.getD 9 0)⟩

/-- The fields of `ProgramHeader64` that are read. -/
structure ProgramHeader64 where
  type : UInt32
  flags : UInt32
  offset : UInt64
  vaddr : UInt64
  filesz : UInt64
  memsz : UInt64
  deriving DecidableEq, Repr

/-- The widths of the fields. -/
def ProgramHeader64.widths : List ℕ := [4, 4, 8, 8, 8, 8, 8, 8]

/-- `sizeof(ProgramHeader)`. -/
def programHeaderSize : ℕ := ProgramHeader64.widths.sum

/-- The header in these bytes. -/
def ProgramHeader64.decode (bytes : List UInt8) : ProgramHeader64 :=
  let fields := decodeAll widths bytes
  ⟨.ofNat (fields.getD 0 0), .ofNat (fields.getD 1 0), .ofNat (fields.getD 2 0),
    .ofNat (fields.getD 3 0), .ofNat (fields.getD 5 0), .ofNat (fields.getD 6 0)⟩

/-- What `map_segment` reads of it. -/
def ProgramHeader64.segment (ph : ProgramHeader64) : ProgramHeader :=
  ⟨ph.flags.toUInt64, ph.offset, ph.vaddr, ph.filesz, ph.memsz⟩

/-- `ET_EXEC`. -/
def etExec : UInt16 := 2
/-- `ET_DYN`. -/
def etDyn : UInt16 := 3
/-- `PT_LOAD`. -/
def ptLoad : UInt32 := 1
/-- `PT_INTERP`. -/
def ptInterp : UInt32 := 3
/-- `PT_GNU_STACK`. -/
def ptGnuStack : UInt32 := 0x6474e551
/-- `PF_X`. -/
def pfX : UInt32 := 1
/-- `PATH_MAX`. -/
def pathMax : ℕ := 4096

/-! ### Reading -/

/-- Why a program is not loaded.  The last is no error: the tracer writes in front of a
buffer. -/
inductive LoadError
  | exec (e : ExecError)
  | enotsup
  | eio
  | einval
  | outOfBounds
  deriving DecidableEq, Repr

/-- `check_elf_ident`, and the class. -/
def checkIdent (ident : List UInt8) : Bool := ident.take 5 = [0x7f, 69, 76, 70, 2]

/-- What the tracer runs on: the files, its page size, whether there is a QEMU, and which sizes
`talloc` can allocate. -/
structure Setting where
  world : World
  page : PageSize
  qemu : Bool
  alloc : UInt64 → Bool

/-- `open_elf`: the bytes of the file and its header. -/
def openElf (s : Setting) (hostPath : Bytes) : Except LoadError (Bytes × ElfHeader64) :=
  if pathMax ≤ hostPath.length then .error (.exec (.of .enametoolong))
  else
    let file := s.world.file hostPath
    match file.refused with
    | some e => .error (.exec (.of e))
    | none =>
      if file.directory then .error (.exec (.of .eisdir))
      else if file.content.length < elfHeaderSize then .error (.exec .noexec)
      else
        let header := ElfHeader64.decode file.content
        if !checkIdent header.ident then .error (.exec .noexec) else .ok (file.content, header)

/-- The offsets that `lseek` and `pread` take. -/
def OffsetOk (offset : UInt64) : Prop := offset.toNat < 2 ^ 63

instance (offset : UInt64) : Decidable (OffsetOk offset) := inferInstanceAs (Decidable (_ < _))

/-- The loop of `iterate_program_headers`, from a place of the file on. -/
def readHeaders {σ : Type} (callback : σ → ProgramHeader64 → Except LoadError σ) (bytes : Bytes) :
    ℕ → ℕ → σ → Except LoadError σ
  | 0, _, info => .ok info
  | n + 1, offset, info =>
    let chunk := (bytes.drop offset).take programHeaderSize
    if chunk.length ≠ programHeaderSize then .error .enotsup
    else
      match callback info (ProgramHeader64.decode chunk) with
      | .error e => .error e
      | .ok info => readHeaders callback bytes n (offset + programHeaderSize) info

/-- `iterate_program_headers`. -/
def iterateProgramHeaders {σ : Type} (callback : σ → ProgramHeader64 → Except LoadError σ)
    (bytes : Bytes) (header : ElfHeader64) (info : σ) : Except LoadError σ :=
  if header.phnum = 0 ∨ header.phentsize.toNat ≠ programHeaderSize then .error .enotsup
  else if ¬ OffsetOk header.phoff then .error .einval
  else readHeaders callback bytes header.phnum.toNat header.phoff.toNat info

/-! ### What is loaded -/

/-- `LoadInfo` while the headers are read.  The interpreter has its path of the user and its
path of the host. -/
structure Extracted where
  mappings : List Mapping
  needsExecutableStack : Bool
  interp : Option (Bytes × Bytes)
  deriving DecidableEq, Repr

/-- `HOST_ROOTFS`. -/
def hostRootfs : Bytes := [47, 104, 111, 115, 116, 45, 114, 111, 111, 116, 102, 115]

/-- `MAX_RW_COUNT`: so many bytes are read at once. -/
def maxRwCount : ℕ := 0x7ffff000

/-- `pread`, if it does not fail. -/
def pread (bytes : Bytes) (size offset : UInt64) : Option Bytes :=
  if OffsetOk offset ∧ OffsetOk size then
    some ((bytes.drop offset.toNat).take (min size.toNat maxRwCount))
  else none

/-- The path of an interpreter, from what is read of it. -/
def interpPath (s : Setting) (text : Bytes) : Bytes :=
  let user := nativeStrdup text
  if s.qemu ∧ user.head? = some 47 then hostRootfs ++ user else user

/-- `add_interp`: the interpreter. -/
def addInterp (s : Setting) (bytes : Bytes) (info : Extracted) (ph : ProgramHeader64) :
    Except LoadError Extracted :=
  if info.interp.isSome then .error .einval
  else if ¬ s.alloc (ph.filesz + 1) then .error (.exec (.of .enomem))
  else
    match pread bytes ph.filesz ph.offset with
    -- A failure is `-1`, which is compared with the size.
    | none => .error (if ph.filesz.toNat = 2 ^ 64 - 1 then .outOfBounds else .eio)
    | some text =>
      if text.length ≠ ph.filesz.toNat then .error .eio
      else
        let user := interpPath s text
        match s.world.translateAndCheckExec user with
        | .error e => .error (.exec e)
        | .ok host => .ok { info with interp := some (user, host) }

/-- `ph_callback`. -/
def phCallback (s : Setting) (bytes : Bytes) (info : Extracted) (ph : ProgramHeader64) :
    Except LoadError Extracted :=
  if ph.type = ptLoad then
    .ok { info with mappings := info.mappings ++ mapSegment s.page ph.segment }
  else if ph.type = ptInterp then addInterp s bytes info ph
  else if ph.type = ptGnuStack then
    .ok { info with needsExecutableStack := ph.flags &&& pfX ≠ 0 }
  else .ok info

/-- `extract_load_info`: the header, and what is to be loaded. -/
def extractLoadInfo (s : Setting) (hostPath : Bytes) :
    Except LoadError (ElfHeader64 × Extracted) :=
  match openElf s hostPath with
  | .error e => .error e
  | .ok (bytes, header) =>
    if header.type ≠ etExec ∧ header.type ≠ etDyn then .error (.exec .noexec)
    else
      match iterateProgramHeaders (phCallback s bytes) bytes header ⟨[], false, none⟩ with
      | .error e => .error e
      | .ok info => .ok (header, info)

/-! ### The addresses -/

/-- `IS_POSITION_INDEPENDANT`. -/
def ElfHeader64.positionIndependent (header : ElfHeader64) : Bool := header.type = etDyn

/-- What `compute_load_addresses` adds to the addresses of an image. -/
def addedBase (role : Role) (header : ElfHeader64) (mappings : List Mapping) : UInt64 :=
  match mappings with
  | [] => 0
  | first :: _ => if header.positionIndependent ∧ first.addr = 0 then role.base else 0

/-- An image, moved by `apply_load_base`. -/
def movedImage (base : UInt64) (header : ElfHeader64) (info : Extracted) : Image where
  mappings := applyLoadBase base info.mappings
  elfHeader := ⟨header.entry + base, header.phoff, header.phentsize, header.phnum⟩
  needsExecutableStack := info.needsExecutableStack

/-- A path, up to its first NUL. -/
def cString (path : Bytes) : CString where
  bytes := nativeStrdup path
  noNul h := by simpa [nativeStrdup] using List.mem_takeWhile_imp h

/-- The end of `translate_execve_enter`: what is to be loaded of a program and of its
interpreter.  Without mappings of the program nothing is moved. -/
def loadProgram (s : Setting) (hostPath : Bytes) (userPath : CString)
    (rawPath : Option CString) : Except LoadError LoadScript.LoadInfo :=
  match extractLoadInfo s hostPath with
  | .error e => .error e
  | .ok (header, info) =>
    let main := movedImage (addedBase .main header info.mappings) header info
    match info.interp with
    | none => .ok { main with userPath := some userPath, rawPath := rawPath, interp := none }
    | some (user, host) =>
      match extractLoadInfo s host with
      | .error e => .error e
      | .ok (interpHeader, interpInfo) =>
        let base :=
          if info.mappings = [] then 0 else addedBase .interp interpHeader interpInfo.mappings
        .ok { main with
          userPath := some userPath
          rawPath := rawPath
          interp := some (cString user, movedImage base interpHeader interpInfo) }

end NeoProot.ElfLoad
