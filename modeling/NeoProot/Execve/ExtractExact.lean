import NeoProot.Execve.ExtractLoadInfo

/-!
# Which programs are loaded

A file is loaded if it is an ELF file of the right kind whose table of program headers is whole,
and which has one interpreter at most, that can be executed.

## Main definitions

* `table` — the program headers of a file.
* `WellFormed` — what a file has to be like.
* `loadedOf` — what is to be loaded of it.

## Main results

* `extractLoadInfo_eq_ok_iff`, `loadProgram_eq_ok_iff` — what is accepted, and what it becomes.
-/

namespace NeoProot.ElfLoad
open LittleEndian MapSegments Shebang Aoxp LoadScript

variable {bytes hostPath : Bytes} {s : Setting} {ph : ProgramHeader64} {phs : List ProgramHeader64}

/-! ### The table -/

/-- The bytes of a header, from the place of the table on. -/
def chunk (bytes : Bytes) (offset i : ℕ) : Bytes :=
  (bytes.drop (offset + i * programHeaderSize)).take programHeaderSize

/-- The headers of a table. -/
def headersAt (bytes : Bytes) (offset n : ℕ) : List ProgramHeader64 :=
  (List.range n).map fun i => .decode (chunk bytes offset i)

/-- The program headers of a file. -/
def table (bytes : Bytes) : List ProgramHeader64 :=
  let header := ElfHeader64.decode bytes
  headersAt bytes header.phoff.toNat header.phnum.toNat

theorem programHeaderSize_pos : 0 < programHeaderSize := by decide

theorem chunk_succ (bytes : Bytes) (offset i : ℕ) :
    chunk bytes offset (i + 1) = chunk bytes (offset + programHeaderSize) i := by
  rw [chunk, chunk]
  congr 2
  rw [Nat.succ_mul]
  omega

theorem headersAt_succ (bytes : Bytes) (offset n : ℕ) :
    headersAt bytes offset (n + 1) =
      .decode (chunk bytes offset 0) :: headersAt bytes (offset + programHeaderSize) n := by
  rw [headersAt, List.range_succ_eq_map, List.map_cons, List.map_map]
  congr 1
  apply List.map_congr_left
  intro i _
  exact congrArg _ (chunk_succ bytes offset i)

theorem length_chunk_iff (bytes : Bytes) (offset i : ℕ) :
    (chunk bytes offset i).length = programHeaderSize ↔
      offset + (i + 1) * programHeaderSize ≤ bytes.length := by
  have hpos := programHeaderSize_pos
  rw [chunk, List.length_take, List.length_drop, Nat.succ_mul]
  omega

variable {σ : Type} {callback : σ → ProgramHeader64 → Except LoadError σ}

/-- The headers are read if the table is whole, and every one is taken. -/
theorem readHeaders_eq_ok_iff {n offset : ℕ} {info info' : σ} :
    readHeaders callback bytes n offset info = .ok info' ↔
      (0 < n → offset + n * programHeaderSize ≤ bytes.length) ∧
        (headersAt bytes offset n).foldlM callback info = .ok info' := by
  induction n generalizing offset info with
  | zero => simp [readHeaders, headersAt, pure, Except.pure]
  | succ n ih =>
    have hchunk := length_chunk_iff bytes offset 0
    have hfirst : (bytes.drop offset).take programHeaderSize = chunk bytes offset 0 := by
      rw [chunk, Nat.zero_mul, Nat.add_zero]
    rw [readHeaders, hfirst, headersAt_succ, List.foldlM_cons]
    by_cases hshort : (chunk bytes offset 0).length = programHeaderSize
    · rw [if_neg (not_not.2 hshort)]
      cases hcall : callback info (.decode (chunk bytes offset 0)) with
      | error e => simp [bind, Except.bind]
      | ok next =>
        have hinside := hchunk.1 hshort
        rw [Nat.zero_add, Nat.one_mul] at hinside
        dsimp only [bind, Except.bind]
        rw [ih]
        refine and_congr_left' ?_
        rw [Nat.succ_mul]
        constructor
        · intro h _
          cases n with
          | zero => omega
          | succ n =>
            have hrest := h (Nat.succ_pos n)
            omega
        · intro h _
          have hall := h (Nat.succ_pos n)
          omega
    · rw [if_pos hshort]
      refine iff_of_false (by simp) ?_
      rintro ⟨hinside, -⟩
      have hall := hinside (Nat.succ_pos n)
      rw [hchunk] at hshort
      rw [Nat.succ_mul] at hall
      omega

/-! ### The interpreter -/

/-- What is read for the path of an interpreter. -/
def interpText (bytes : Bytes) (ph : ProgramHeader64) : Bytes :=
  (bytes.drop ph.offset.toNat).take ph.filesz.toNat

/-- The header names a program that can be executed. -/
structure InterpOk (s : Setting) (bytes : Bytes) (ph : ProgramHeader64) : Prop where
  alloc : s.alloc (ph.filesz + 1) = true
  offset : OffsetOk ph.offset
  size : ph.filesz.toNat ≤ maxRwCount
  inside : (interpText bytes ph).length = ph.filesz.toNat
  executable : (s.world.translateAndCheckExec (interpPath s (interpText bytes ph))).isOk = true

/-- The interpreter that a header names. -/
def interpOf (s : Setting) (bytes : Bytes) (ph : ProgramHeader64) : Option (Bytes × Bytes) :=
  let user := interpPath s (interpText bytes ph)
  (s.world.translateAndCheckExec user).toOption.map fun host => (user, host)

theorem pread_eq_some {text : Bytes} {size offset : UInt64}
    (h : pread bytes size offset = some text) (hlength : text.length = size.toNat) :
    OffsetOk offset ∧ size.toNat ≤ maxRwCount ∧
      text = (bytes.drop offset.toNat).take size.toNat := by
  rw [pread] at h
  split at h
  · next hok =>
    rw [Option.some.injEq] at h
    have hle : size.toNat ≤ maxRwCount := by
      rw [← h, List.length_take] at hlength
      omega
    rw [Nat.min_eq_left hle] at h
    exact ⟨hok.1, hle, h.symm⟩
  · cases h

theorem pread_of_le {size offset : UInt64} (hoffset : OffsetOk offset)
    (hsize : size.toNat ≤ maxRwCount) :
    pread bytes size offset = some ((bytes.drop offset.toNat).take size.toNat) := by
  have hok : OffsetOk size := Nat.lt_of_le_of_lt hsize (by decide)
  rw [pread, if_pos ⟨hoffset, hok⟩, Nat.min_eq_left hsize]

/-- An interpreter is taken if it is the first and can be executed. -/
theorem addInterp_eq_ok_iff {info info' : Extracted} :
    addInterp s bytes info ph = .ok info' ↔
      info.interp = none ∧ InterpOk s bytes ph ∧
        info' = { info with interp := interpOf s bytes ph } := by
  constructor
  · intro h
    rw [addInterp] at h
    split at h
    · cases h
    next hfirst =>
    split at h
    · cases h
    next halloc =>
    split at h
    · cases h
    next text hread =>
    split at h
    · cases h
    next hlength =>
    obtain ⟨hoffset, hsize, htext⟩ := pread_eq_some hread (not_not.1 hlength)
    have htext' : text = interpText bytes ph := htext
    rw [htext'] at h hlength
    dsimp only at h
    split at h
    · cases h
    next host hcheck =>
    cases h
    refine ⟨by simpa using hfirst, ⟨by simpa using halloc, hoffset, hsize, not_not.1 hlength, ?_⟩,
      ?_⟩
    · rw [hcheck]
      rfl
    · rw [interpOf, hcheck]
      rfl
  · rintro ⟨hfirst, hok, rfl⟩
    have hread : pread bytes ph.filesz ph.offset = some (interpText bytes ph) :=
      pread_of_le hok.offset hok.size
    have hexec := hok.executable
    rw [addInterp, hfirst, if_neg (by simp), if_neg (by simpa using hok.alloc), hread, interpOf]
    dsimp only
    rw [if_neg (not_not.2 hok.inside)]
    cases hcheck : s.world.translateAndCheckExec (interpPath s (interpText bytes ph)) with
    | error e =>
      rw [hcheck] at hexec
      cases hexec
    | ok host => rfl

/-! ### All headers -/

/-- A header of a kind. -/
def isType (type : UInt32) (ph : ProgramHeader64) : Bool := ph.type = type

/-- What is to be loaded, from the program headers. -/
def loadedOf (s : Setting) (bytes : Bytes) (phs : List ProgramHeader64) : Extracted where
  mappings := (phs.filter (isType ptLoad)).flatMap fun ph => mapSegment s.page ph.segment
  needsExecutableStack :=
    ((phs.filter (isType ptGnuStack)).getLast?.map fun ph => decide (ph.flags &&& pfX ≠ 0)).getD
      false
  interp := (phs.filter (isType ptInterp)).head?.bind (interpOf s bytes)

/-- The program headers name one interpreter at most, and it can be executed. -/
structure InterpsOk (s : Setting) (bytes : Bytes) (phs : List ProgramHeader64) : Prop where
  one : (phs.filter (isType ptInterp)).length ≤ 1
  ok : ∀ ph ∈ phs, ph.type = ptInterp → InterpOk s bytes ph

theorem isSome_interpOf (h : InterpOk s bytes ph) : (interpOf s bytes ph).isSome = true := by
  have hexec := h.executable
  rw [interpOf]
  cases hcheck : s.world.translateAndCheckExec (interpPath s (interpText bytes ph)) with
  | error e =>
    rw [hcheck] at hexec
    cases hexec
  | ok host => rfl

theorem filter_concat (phs : List ProgramHeader64) (ph : ProgramHeader64) (type : UInt32) :
    (phs ++ [ph]).filter (isType type) =
      phs.filter (isType type) ++ if ph.type = type then [ph] else [] := by
  rw [List.filter_append, List.filter_cons, List.filter_nil, isType]
  simp

theorem interpsOk_concat :
    InterpsOk s bytes (phs ++ [ph]) ↔ InterpsOk s bytes phs ∧
      (ph.type = ptInterp → phs.filter (isType ptInterp) = [] ∧ InterpOk s bytes ph) := by
  have hlength := congrArg List.length (filter_concat phs ph ptInterp)
  rw [List.length_append] at hlength
  constructor
  · intro h
    have hone := h.one
    rw [hlength] at hone
    refine ⟨⟨by omega, fun ph' hph' => h.ok ph' (List.mem_append_left _ hph')⟩, fun htype => ?_⟩
    rw [if_pos htype, List.length_singleton] at hone
    exact ⟨List.length_eq_zero_iff.1 (by omega),
      h.ok ph (List.mem_append_right _ (List.mem_singleton_self ph)) htype⟩
  · rintro ⟨h, hlast⟩
    refine ⟨?_, ?_⟩
    · rw [hlength]
      split
      · next htype =>
        rw [(hlast htype).1]
        exact Nat.le_refl 1
      · exact h.one
    · intro ph' hph' htype
      rw [List.mem_append, List.mem_singleton] at hph'
      cases hph' with
      | inl hmem => exact h.ok ph' hmem htype
      | inr heq => exact heq ▸ (hlast (heq ▸ htype)).2

/-- No interpreter has been taken if there was none. -/
theorem interp_loadedOf_eq_none_iff (h : InterpsOk s bytes phs) :
    (loadedOf s bytes phs).interp = none ↔ phs.filter (isType ptInterp) = [] := by
  rw [loadedOf]
  dsimp only
  cases hinterps : phs.filter (isType ptInterp) with
  | nil => simp
  | cons ph rest =>
    have hmem : ph ∈ phs.filter (isType ptInterp) := by simp [hinterps]
    rw [List.mem_filter] at hmem
    have hsome := isSome_interpOf (h.ok ph hmem.1 (by simpa [isType] using hmem.2))
    rw [List.head?_cons, Option.bind_some]
    refine iff_of_false (fun hnone => ?_) (by simp)
    rw [hnone] at hsome
    cases hsome

/-- One more header is taken. -/
theorem phCallback_eq_ok_iff (h : InterpsOk s bytes phs) (ph : ProgramHeader64) (info : Extracted) :
    phCallback s bytes (loadedOf s bytes phs) ph = .ok info ↔
      (ph.type = ptInterp → phs.filter (isType ptInterp) = [] ∧ InterpOk s bytes ph) ∧
        info = loadedOf s bytes (phs ++ [ph]) := by
  have hload := filter_concat phs ph ptLoad
  have hinterp := filter_concat phs ph ptInterp
  have hstack := filter_concat phs ph ptGnuStack
  rw [phCallback]
  by_cases h₁ : ph.type = ptLoad
  · have h₂ : ph.type ≠ ptInterp := by
      rw [h₁]
      decide
    have h₃ : ph.type ≠ ptGnuStack := by
      rw [h₁]
      decide
    rw [if_pos h₁] at hload
    rw [if_neg h₂, List.append_nil] at hinterp
    rw [if_neg h₃, List.append_nil] at hstack
    rw [if_pos h₁, Except.ok.injEq, loadedOf, loadedOf, hload, hinterp, hstack,
      List.flatMap_append, List.flatMap_cons, List.flatMap_nil, List.append_nil]
    exact ⟨fun heq => ⟨fun htype => absurd htype h₂, heq.symm⟩, fun heq => heq.2.symm⟩
  rw [if_neg h₁, List.append_nil] at hload
  by_cases h₂ : ph.type = ptInterp
  · have h₃ : ph.type ≠ ptGnuStack := by
      rw [h₂]
      decide
    rw [if_pos h₂] at hinterp
    rw [if_neg h₃, List.append_nil] at hstack
    rw [if_neg h₁, if_pos h₂, addInterp_eq_ok_iff, interp_loadedOf_eq_none_iff h, ← and_assoc]
    constructor
    · rintro ⟨hfirst, rfl⟩
      refine ⟨fun _ => hfirst, ?_⟩
      rw [loadedOf, loadedOf, hload, hinterp, hstack, hfirst.1]
      rfl
    · rintro ⟨hfirst, rfl⟩
      refine ⟨hfirst h₂, ?_⟩
      rw [loadedOf, loadedOf, hload, hinterp, hstack, (hfirst h₂).1]
      rfl
  rw [if_neg h₂, List.append_nil] at hinterp
  rw [if_neg h₁, if_neg h₂]
  by_cases h₃ : ph.type = ptGnuStack
  · rw [if_pos h₃] at hstack
    rw [if_pos h₃, Except.ok.injEq, loadedOf, loadedOf, hload, hinterp, hstack,
      List.getLast?_concat]
    exact ⟨fun heq => ⟨fun htype => absurd htype h₂, heq.symm⟩, fun heq => heq.2.symm⟩
  · rw [if_neg h₃, List.append_nil] at hstack
    rw [if_neg h₃, Except.ok.injEq, loadedOf, loadedOf, hload, hinterp, hstack]
    exact ⟨fun heq => ⟨fun htype => absurd htype h₂, heq.symm⟩, fun heq => heq.2.symm⟩

/-- All headers are taken if the interpreters among them are. -/
theorem foldlM_phCallback_eq_ok_iff {info : Extracted} :
    phs.foldlM (phCallback s bytes) ⟨[], false, none⟩ = .ok info ↔
      InterpsOk s bytes phs ∧ info = loadedOf s bytes phs := by
  induction phs using List.reverseRecOn generalizing info with
  | nil =>
    rw [List.foldlM_nil]
    constructor
    · intro h
      cases h
      exact ⟨⟨by simp, by simp⟩, rfl⟩
    · rintro ⟨-, rfl⟩
      rfl
  | append_singleton phs ph ih =>
    rw [List.foldlM_append, interpsOk_concat]
    cases hfold : phs.foldlM (phCallback s bytes) ⟨[], false, none⟩ with
    | error e =>
      refine iff_of_false (by simp [bind, Except.bind]) ?_
      rintro ⟨⟨hinterps, -⟩, -⟩
      have hok := ih.2 ⟨hinterps, rfl⟩
      rw [hfold] at hok
      cases hok
    | ok before =>
      obtain ⟨hinterps, rfl⟩ := ih.1 hfold
      have hstep := phCallback_eq_ok_iff hinterps ph info
      change ([ph].foldlM (phCallback s bytes) (loadedOf s bytes phs)) = _ ↔ _
      rw [List.foldlM_cons]
      cases hcall : phCallback s bytes (loadedOf s bytes phs) ph with
      | error e =>
        rw [hcall] at hstep
        refine iff_of_false (by simp [bind, Except.bind]) ?_
        rintro ⟨⟨-, hlast⟩, hinfo⟩
        cases hstep.2 ⟨hlast, hinfo⟩
      | ok after =>
        rw [hcall, Except.ok.injEq] at hstep
        simp only [bind, Except.bind, List.foldlM_nil, pure, Except.pure, Except.ok.injEq, hstep]
        exact ⟨fun h => ⟨⟨hinterps, h.1⟩, h.2⟩, fun h => ⟨h.1.2, h.2⟩⟩

/-! ### Files -/

/-- What a file has to be like. -/
structure WellFormed (s : Setting) (bytes : Bytes) : Prop where
  long : elfHeaderSize ≤ bytes.length
  ident : checkIdent (ElfHeader64.decode bytes).ident = true
  type : (ElfHeader64.decode bytes).type = etExec ∨ (ElfHeader64.decode bytes).type = etDyn
  phnum : (ElfHeader64.decode bytes).phnum ≠ 0
  phentsize : (ElfHeader64.decode bytes).phentsize.toNat = programHeaderSize
  phoff : OffsetOk (ElfHeader64.decode bytes).phoff
  inside : (ElfHeader64.decode bytes).phoff.toNat +
    (ElfHeader64.decode bytes).phnum.toNat * programHeaderSize ≤ bytes.length
  interps : InterpsOk s bytes (table bytes)

/-- The file of a path can be read. -/
structure Readable (s : Setting) (hostPath : Bytes) : Prop where
  short : hostPath.length < pathMax
  opens : (s.world.file hostPath).refused = none
  regular : (s.world.file hostPath).directory = false

/-- The bytes of a file. -/
def Setting.content (s : Setting) (hostPath : Bytes) : Bytes := (s.world.file hostPath).content

theorem openElf_eq_ok_iff {header : ElfHeader64} :
    openElf s hostPath = .ok (bytes, header) ↔
      Readable s hostPath ∧ elfHeaderSize ≤ bytes.length ∧ checkIdent header.ident = true ∧
        bytes = s.content hostPath ∧ header = .decode bytes := by
  constructor
  · intro h
    rw [openElf] at h
    split at h
    · cases h
    next hshort =>
    dsimp only at h
    split at h
    · cases h
    next hopens =>
    split at h
    · cases h
    next hregular =>
    split at h
    · cases h
    next hlong =>
    split at h
    · cases h
    next hident =>
    cases h
    exact ⟨⟨Nat.not_le.1 hshort, hopens, by simpa using hregular⟩, Nat.not_lt.1 hlong,
      by simpa using hident, rfl, rfl⟩
  · rintro ⟨hread, hlong, hident, rfl, rfl⟩
    rw [Setting.content] at hlong hident
    rw [openElf, if_neg (Nat.not_le.2 hread.short)]
    dsimp only
    rw [hread.opens]
    dsimp only
    rw [hread.regular, if_neg Bool.false_ne_true, if_neg (Nat.not_lt.2 hlong), hident,
      if_neg (by simp)]
    rfl

/-- **What is loaded of a file**: it is accepted if it is well formed, and then the mappings are
those of its `PT_LOAD` headers. -/
theorem extractLoadInfo_eq_ok_iff {s : Setting} {hostPath : Bytes} {header : ElfHeader64}
    {info : Extracted} :
    extractLoadInfo s hostPath = .ok (header, info) ↔
      Readable s hostPath ∧ WellFormed s (s.content hostPath) ∧
        header = .decode (s.content hostPath) ∧
        info = loadedOf s (s.content hostPath) (table (s.content hostPath)) := by
  rw [extractLoadInfo]
  constructor
  · intro h
    split at h
    · cases h
    next bytes header' hopen =>
    obtain ⟨hread, hlong, hident, rfl, rfl⟩ := openElf_eq_ok_iff.1 hopen
    split at h
    · cases h
    next htype =>
    split at h
    · cases h
    next info' hiterate =>
    cases h
    rw [iterateProgramHeaders] at hiterate
    split at hiterate
    · cases hiterate
    next hentries =>
    split at hiterate
    · cases hiterate
    next hoffset =>
    rw [not_or, not_not] at hentries
    rw [readHeaders_eq_ok_iff] at hiterate
    obtain ⟨hinside, hfold⟩ := hiterate
    obtain ⟨hinterps, rfl⟩ := foldlM_phCallback_eq_ok_iff.1 hfold
    have hpos : 0 < (ElfHeader64.decode (s.content hostPath)).phnum.toNat := by
      rw [Nat.pos_iff_ne_zero]
      intro hzero
      exact hentries.1 (UInt16.toNat_inj.1 hzero)
    refine ⟨hread, ⟨hlong, hident, ?_, hentries.1, hentries.2, not_not.1 hoffset, hinside hpos,
      hinterps⟩, rfl, rfl⟩
    rw [not_and_or, not_not, not_not] at htype
    exact htype
  · rintro ⟨hread, hwell, rfl, rfl⟩
    have hopen := openElf_eq_ok_iff.2 ⟨hread, hwell.long, hwell.ident, rfl, rfl⟩
    have hfold := foldlM_phCallback_eq_ok_iff.2 ⟨hwell.interps, rfl⟩
    have hheaders := readHeaders_eq_ok_iff.2 ⟨fun _ => hwell.inside, hfold⟩
    have htype := hwell.type
    rw [hopen]
    dsimp only
    rw [if_neg (by rw [not_and_or, not_not, not_not]; exact htype), iterateProgramHeaders,
      if_neg (by rw [not_or, not_not]; exact ⟨hwell.phnum, hwell.phentsize⟩),
      if_neg (not_not.2 hwell.phoff), hheaders]

/-! ### The program and its interpreter -/

/-- A file as an image. -/
def imageOf (role : Role) (bytes : Bytes) : ElfImage where
  role := role
  positionIndependent := (ElfHeader64.decode bytes).positionIndependent
  phoff := (ElfHeader64.decode bytes).phoff
  headers := ((table bytes).filter (isType ptLoad)).map ProgramHeader64.segment
  bytes := bytes

theorem mappings_loadedOf (s : Setting) (role : Role) (bytes : Bytes) :
    (loadedOf s bytes (table bytes)).mappings =
      (imageOf role bytes).headers.flatMap (mapSegment s.page) := by
  rw [imageOf, List.flatMap_map, loadedOf]

theorem addedBase_loadedOf (s : Setting) (role : Role) (bytes : Bytes) :
    addedBase role (.decode bytes) (loadedOf s bytes (table bytes)).mappings =
      (imageOf role bytes).loadBase s.page := by
  unfold addedBase ElfImage.loadBase
  rw [mappings_loadedOf s role bytes]
  generalize (imageOf role bytes).headers.flatMap (mapSegment s.page) = mappings
  cases mappings with
  | nil => rfl
  | cons first rest => rfl

/-- What the script has of a file, above a base. -/
def scriptImage (s : Setting) (base : UInt64) (bytes : Bytes) : Image :=
  movedImage base (.decode bytes) (loadedOf s bytes (table bytes))

/-- Where the interpreter is loaded: it is not moved if the program has no mappings. -/
def interpBase (s : Setting) (bytes interpBytes : Bytes) : UInt64 :=
  if (imageOf .main bytes).mappings s.page = [] then 0
  else (imageOf .interp interpBytes).loadBase s.page

theorem mappings_eq_nil_iff (s : Setting) (bytes : Bytes) :
    (imageOf .main bytes).mappings s.page = [] ↔
      (loadedOf s bytes (table bytes)).mappings = [] := by
  rw [ElfImage.mappings, applyLoadBase, List.map_eq_nil_iff, mappings_loadedOf s .main bytes]

/-- What the script has of a program and of its interpreter, if it has one. -/
def programOf (s : Setting) (bytes : Bytes) (userPath : CString) (rawPath : Option CString)
    (interp : Option (Bytes × Bytes)) : LoadScript.LoadInfo :=
  { scriptImage s ((imageOf .main bytes).loadBase s.page) bytes with
    userPath := some userPath
    rawPath := rawPath
    interp := interp.map fun interp =>
      (cString interp.1,
        scriptImage s (interpBase s bytes (s.content interp.2)) (s.content interp.2)) }

/-- A program without an interpreter. -/
theorem loadProgram_of_none (hread : Readable s hostPath)
    (hwell : WellFormed s (s.content hostPath))
    (hinterp : (loadedOf s (s.content hostPath) (table (s.content hostPath))).interp = none)
    (userPath : CString) (rawPath : Option CString) :
    loadProgram s hostPath userPath rawPath =
      .ok (programOf s (s.content hostPath) userPath rawPath none) := by
  have hextract := extractLoadInfo_eq_ok_iff.2 ⟨hread, hwell, rfl, rfl⟩
  rw [loadProgram, hextract]
  dsimp only
  rw [hinterp, addedBase_loadedOf, programOf, Option.map_none, scriptImage]

/-- The interpreter's base, as it is computed. -/
theorem interpBase_eq (s : Setting) (bytes interpBytes : Bytes) :
    (if (loadedOf s bytes (table bytes)).mappings = [] then 0
      else addedBase .interp (.decode interpBytes)
        (loadedOf s interpBytes (table interpBytes)).mappings) =
      interpBase s bytes interpBytes := by
  rw [interpBase, addedBase_loadedOf]
  by_cases hnone : (loadedOf s bytes (table bytes)).mappings = []
  · rw [if_pos hnone, if_pos ((mappings_eq_nil_iff s bytes).2 hnone)]
  · rw [if_neg hnone, if_neg (mt (mappings_eq_nil_iff s bytes).1 hnone)]

/-- A program with an interpreter. -/
theorem loadProgram_of_some {user host : Bytes} (hread : Readable s hostPath)
    (hwell : WellFormed s (s.content hostPath))
    (hinterp : (loadedOf s (s.content hostPath) (table (s.content hostPath))).interp =
      some (user, host)) (userPath : CString) (rawPath : Option CString) :
    loadProgram s hostPath userPath rawPath =
      match extractLoadInfo s host with
      | .error e => .error e
      | .ok (header, info) => .ok
        { scriptImage s ((imageOf .main (s.content hostPath)).loadBase s.page)
            (s.content hostPath) with
          userPath := some userPath
          rawPath := rawPath
          interp := some (cString user, movedImage
            (if (loadedOf s (s.content hostPath) (table (s.content hostPath))).mappings = [] then 0
              else addedBase .interp header info.mappings) header info) } := by
  have hextract := extractLoadInfo_eq_ok_iff.2 ⟨hread, hwell, rfl, rfl⟩
  rw [loadProgram, hextract]
  dsimp only
  rw [hinterp, addedBase_loadedOf]
  dsimp only
  cases extractLoadInfo s host with
  | error e => rfl
  | ok extracted => rfl

/-- **Which programs are loaded, and as what**: the program and its interpreter are well formed,
and the script has the mappings of their segments. -/
theorem loadProgram_eq_ok_iff {s : Setting} {hostPath : Bytes} {userPath : CString}
    {rawPath : Option CString} {info : LoadScript.LoadInfo} :
    loadProgram s hostPath userPath rawPath = .ok info ↔
      Readable s hostPath ∧ WellFormed s (s.content hostPath) ∧
        ∃ interp, (loadedOf s (s.content hostPath) (table (s.content hostPath))).interp = interp ∧
          (∀ i ∈ interp, Readable s i.2 ∧ WellFormed s (s.content i.2)) ∧
          info = programOf s (s.content hostPath) userPath rawPath interp := by
  cases hextract : extractLoadInfo s hostPath with
  | error e =>
    refine iff_of_false (fun h => ?_) ?_
    · rw [loadProgram, hextract] at h
      cases h
    · rintro ⟨hread, hwell, -⟩
      rw [extractLoadInfo_eq_ok_iff.2 ⟨hread, hwell, rfl, rfl⟩] at hextract
      cases hextract
  | ok extracted =>
    obtain ⟨hread, hwell, -, -⟩ := extractLoadInfo_eq_ok_iff.1 hextract
    rw [and_iff_right hread, and_iff_right hwell]
    cases hinterp : (loadedOf s (s.content hostPath) (table (s.content hostPath))).interp with
    | none =>
      rw [loadProgram_of_none hread hwell hinterp, Except.ok.injEq]
      constructor
      · intro h
        exact ⟨none, rfl, fun i hi => (by cases hi), h.symm⟩
      · rintro ⟨interp, rfl, -, h⟩
        exact h.symm
    | some i =>
      rw [loadProgram_of_some hread hwell hinterp]
      cases hextract' : extractLoadInfo s i.2 with
      | error e =>
        refine iff_of_false (by simp) ?_
        rintro ⟨interp, rfl, hinterps, -⟩
        obtain ⟨hread', hwell'⟩ := hinterps i rfl
        rw [extractLoadInfo_eq_ok_iff.2 ⟨hread', hwell', rfl, rfl⟩] at hextract'
        cases hextract'
      | ok extracted' =>
        obtain ⟨hread', hwell', hheader, hinfo⟩ := extractLoadInfo_eq_ok_iff.1 hextract'
        dsimp only
        rw [hheader, hinfo, interpBase_eq, Except.ok.injEq]
        constructor
        · intro h
          refine ⟨some i, rfl, fun j hj => ?_, h.symm⟩
          rw [Option.mem_some_iff] at hj
          rw [← hj]
          exact ⟨hread', hwell'⟩
        · rintro ⟨interp, rfl, -, h⟩
          exact h.symm

end NeoProot.ElfLoad
