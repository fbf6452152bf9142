import NeoProot.Execve.Aoxp

/-!
# The load script

At the exit of an `execve` the tracer writes a block below the stack of the new program: a list
of statements for the loader, and the paths that the statements name.  The loader reads the
statements one after the other up to the start of the program.

## Main definitions

* `Statement`, `LoadInfo` — a statement of the loader, and what is to be loaded.
* `transferLoadScript` — the block is written.
* `readStatement`, `readScript` — what the loader reads.
-/

namespace NeoProot.LoadScript
open Mem

/-- A string of C: none of its bytes is NUL. -/
structure CString where
  bytes : List UInt8
  noNul : 0 ∉ bytes

/-- The bytes of a string and its NUL. -/
def CString.terminated (s : CString) : List UInt8 := s.bytes ++ [0]

/-- `strlen(s) + 1`. -/
def CString.size (s : CString) : ℕ := s.bytes.length + 1

/-- `Mapping`. -/
structure Mapping where
  addr : UInt64
  length : UInt64
  clearLength : UInt64
  prot : UInt64
  flags : UInt64
  offset : UInt64
  deriving DecidableEq, Repr

/-- The fields of `ElfHeader` that the script has. -/
structure ElfHeader where
  entry : UInt64
  phoff : UInt64
  phentsize : UInt16
  phnum : UInt16
  deriving DecidableEq, Repr

/-- What is loaded of a program or of its interpreter. -/
structure Image where
  mappings : List Mapping
  elfHeader : ElfHeader
  needsExecutableStack : Bool

/-- `LoadInfo`.  A raw path that is the user path itself is `none`. -/
structure LoadInfo extends Image where
  userPath : Option CString
  rawPath : Option CString
  interp : Option (CString × Image)

/-- `struct load_statement`. -/
inductive Statement
  | openNext (stringAddress : UInt64)
  | openFile (stringAddress : UInt64)
  | mmapFile (addr length prot offset clearLength : UInt64)
  | mmapAnon (addr length prot offset clearLength : UInt64)
  | makeStackExec (stackStart : UInt64)
  | startTraced (stackPointer entryPoint atPhdr atPhent atPhnum atEntry atExecfn : UInt64)
  | start (stackPointer entryPoint atPhdr atPhent atPhnum atEntry atExecfn : UInt64)
  deriving DecidableEq, Repr

/-- The words of a statement: the action and its fields. -/
def Statement.words : Statement → List UInt64
  | .openNext stringAddress => [0, stringAddress]
  | .openFile stringAddress => [1, stringAddress]
  | .mmapFile addr length prot offset clearLength => [2, addr, length, prot, offset, clearLength]
  | .mmapAnon addr length prot offset clearLength => [3, addr, length, prot, offset, clearLength]
  | .makeStackExec stackStart => [4, stackStart]
  | .startTraced stackPointer entryPoint atPhdr atPhent atPhnum atEntry atExecfn =>
    [5, stackPointer, entryPoint, atPhdr, atPhent, atPhnum, atEntry, atExecfn]
  | .start stackPointer entryPoint atPhdr atPhent atPhnum atEntry atExecfn =>
    [6, stackPointer, entryPoint, atPhdr, atPhent, atPhnum, atEntry, atExecfn]

/-- `LOAD_STATEMENT_SIZE` of an open statement. -/
def openSize : ℕ := wordSize + wordSize

/-- `LOAD_STATEMENT_SIZE` of a mapping. -/
def mmapSize : ℕ := wordSize + 5 * wordSize

/-- `LOAD_STATEMENT_SIZE` of the statement for the stack. -/
def makeStackExecSize : ℕ := wordSize + wordSize

/-- `LOAD_STATEMENT_SIZE` of the start. -/
def startSize : ℕ := wordSize + 7 * wordSize

/-! ### Writing -/

/-- `MAP_ANONYMOUS`. -/
def mapAnonymous : UInt64 := 0x20

/-- `transcript_mappings`. -/
def transcriptMappings (mappings : List Mapping) : List Statement :=
  mappings.map fun m =>
    if m.flags &&& mapAnonymous ≠ 0 then
      .mmapAnon m.addr m.length m.prot m.offset m.clearLength
    else .mmapFile m.addr m.length m.prot m.offset m.clearLength

/-- The memory of a tracee and its stack pointer, when a program has been loaded.  An address
is a word. -/
structure Tracee where
  access : Access
  memory : TraceeMemory
  mapped_lt : ∀ a, memory.Mapped a 1 → a < 2 ^ 64
  sp : UInt64
  pageSize : UInt64

/-- What becomes of the script.  Without a mapping the tracer reads through a null pointer. -/
inductive Transfer
  | einval
  | crash
  | fault
  | done (memory : TraceeMemory) (newSp : UInt64)

/-- The bytes of some statements. -/
def scriptBytes (statements : List Statement) : List UInt8 :=
  ((statements.flatMap Statement.words).map fun w =>
    LittleEndian.encode wordSize w.toNat).flatten

/-- The statements, with the addresses of the three paths. -/
def statements (t : Tracee) (info : LoadInfo) (phdr addr1 addr2 addr3 : UInt64) :
    List Statement :=
  let entry :=
    match info.interp with
    | some (_, interp) => interp.elfHeader.entry
    | none => info.elfHeader.entry
  let opened :=
    match info.interp with
    | some (_, interp) => .openNext addr2 :: transcriptMappings interp.mappings
    | none => []
  let execStack := info.needsExecutableStack ∨
    (info.interp.any fun interp => interp.2.needsExecutableStack) = true
  .openFile addr1 :: transcriptMappings info.mappings ++ opened ++
    (if execStack then [.makeStackExec (t.sp &&& ~~~(t.pageSize - 1))] else []) ++
      [.start t.sp entry phdr info.elfHeader.phentsize.toUInt64 info.elfHeader.phnum.toUInt64
        info.elfHeader.entry addr3]

/-- `script_sz`. -/
def scriptSize (info : LoadInfo) : ℕ :=
  let execStack := info.needsExecutableStack ∨
    (info.interp.any fun interp => interp.2.needsExecutableStack) = true
  openSize + mmapSize * info.mappings.length +
    (match info.interp with
      | some (_, interp) => openSize + mmapSize * interp.mappings.length
      | none => 0) +
      (if execStack then makeStackExecSize else 0) + startSize

/-- A zeroed buffer with some bytes at its beginning. -/
def fillBuffer (size : ℕ) (bytes : List UInt8) : List UInt8 :=
  bytes ++ List.replicate (size - bytes.length) 0

/-- `transfer_load_script`. -/
def transferLoadScript (t : Tracee) (info : LoadInfo) : Transfer :=
  match info.userPath with
  | none => .einval
  | some userPath =>
    if t.sp = 0 then .einval
    else
      let str1 := userPath.size
      let str2 := (info.interp.map fun interp => interp.1.size).getD 0
      let str3 := (info.rawPath.map CString.size).getD 0
      let pad := (16 - (t.sp - .ofNat str1 - .ofNat str2 - .ofNat str3).toNat % 16) % 16
      let totalStr := str1 + str2 + str3 + pad
      let addr1 := t.sp - .ofNat totalStr
      let addr2 := addr1 + .ofNat str1
      let addr3 := if str3 = 0 then addr1 else addr2 + .ofNat str2
      let bufSz := scriptSize info + totalStr
      match info.mappings with
      | [] => .crash
      | first :: _ =>
        let phdr := info.elfHeader.phoff + first.addr
        let buf := fillBuffer bufSz
          (scriptBytes (statements t info phdr addr1 addr2 addr3) ++ userPath.terminated ++
            (info.interp.map fun interp => interp.1.terminated).getD [] ++
              (info.rawPath.map CString.terminated).getD [])
        let newSp := t.sp - .ofNat bufSz
        match writeData t.access t.memory newSp.toNat buf with
        | (_, false) => .fault
        | (memory, true) => .done memory newSp

/-! ### Reading -/

/-- The word at an address. -/
def word (m : TraceeMemory) (a : ℕ) : UInt64 := UInt64.ofNat (Aoxp.wordAt m a)

/-- The statement at the cursor of the loader, and the next place of the cursor. -/
def readStatement (m : TraceeMemory) (cursor : ℕ) : Option (Statement × ℕ) :=
  let field := fun i => word m (cursor + i * wordSize)
  match (field 0).toNat with
  | 0 => some (.openNext (field 1), cursor + openSize)
  | 1 => some (.openFile (field 1), cursor + openSize)
  | 2 => some (.mmapFile (field 1) (field 2) (field 3) (field 4) (field 5), cursor + mmapSize)
  | 3 => some (.mmapAnon (field 1) (field 2) (field 3) (field 4) (field 5), cursor + mmapSize)
  | 4 => some (.makeStackExec (field 1), cursor + makeStackExecSize)
  | 5 => some (.startTraced (field 1) (field 2) (field 3) (field 4) (field 5) (field 6) (field 7),
      cursor + startSize)
  | 6 => some (.start (field 1) (field 2) (field 3) (field 4) (field 5) (field 6) (field 7),
      cursor + startSize)
  -- Any other action ends the loader.
  | _ => none

/-- The start of the program ends the script. -/
def Statement.isStart : Statement → Bool
  | .startTraced .. | .start .. => true
  | _ => false

/-- The statements that `_start` reads, so many at most. -/
def readScript (m : TraceeMemory) : ℕ → ℕ → Option (List Statement)
  | 0, _ => none
  | fuel + 1, cursor =>
    match readStatement m cursor with
    | none => none
    | some (statement, next) =>
      if statement.isStart then some [statement]
      else (readScript m fuel next).map (statement :: ·)

end NeoProot.LoadScript
