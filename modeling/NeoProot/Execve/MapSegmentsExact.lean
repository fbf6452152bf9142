import NeoProot.Execve.MapSegments

/-!
# Programs in memory

The mappings of a program put the bytes of its segments where they belong, if no segment ends
with its page, the cleared pages can be written, and later segments do not change what they
share with earlier ones.

## Main definitions

* `Placed` — a segment where it is loaded.
* `Accepted` — what the kernel asks of a header.
* `LoadsAsKernel` — the program is in memory as its headers say.
* `loads_iff` — when it is.
-/

namespace NeoProot.MapSegments
open LoadScript Mem PagedMemory

variable {P i : ℕ}

/-! ### Segments -/

/-- A segment where it is loaded. -/
structure Placed where
  vaddr : ℕ
  offset : ℕ
  filesz : ℕ
  memsz : ℕ
  writable : Bool
  deriving DecidableEq, Repr

variable {s : Placed}

/-- The segment of a header, above a base. -/
def ProgramHeader.placed (ph : ProgramHeader) (base : ℕ) : Placed where
  vaddr := base + ph.vaddr.toNat
  offset := ph.offset.toNat
  filesz := ph.filesz.toNat
  memsz := ph.memsz.toNat
  writable := ph.flags &&& writeBit ≠ 0

/-- The segments of a program. -/
def ElfImage.placed (img : ElfImage) (page : PageSize) : List Placed :=
  img.headers.map fun ph => ph.placed (img.loadBase page).toNat

/-- The pages that a segment needs. -/
def Placed.InPages (s : Placed) (page : PageSize) (p : ℕ) : Prop :=
  s.vaddr / page.size ≤ p ∧ p * page.size < s.vaddr + s.memsz

/-- What a segment puts at an address of its pages. -/
def Placed.byte (s : Placed) (page : PageSize) (bytes : List UInt8) (x : ℕ) : UInt8 :=
  if s.filesz < s.memsz ∧ s.vaddr + s.filesz ≤ x then 0
  else fileByte bytes (s.offset / page.size * page.size + (x - s.vaddr / page.size * page.size))

/-- The pages that are mapped for a segment. -/
def Placed.patch (s : Placed) (page : PageSize) (bytes : List UInt8) : Patch UInt8 where
  first := s.vaddr / page.size
  last := (s.vaddr + s.memsz) / page.size
  content := s.byte page bytes

/-- The pages of the file exist, and the place behind the bytes of the file can be cleared,
where there is something to clear. -/
structure Placed.Loadable (s : Placed) (page : PageSize) (bytes : List UInt8) : Prop where
  inFile : ((s.offset + s.filesz) / page.size + 1) * page.size ≤ maxFile
  clearable : s.filesz < s.memsz → s.writable = true ∧
    (s.offset + s.filesz) / page.size * page.size < bytes.length

/-- The program headers are in the segment. -/
def Placed.HoldsHeaders (s : Placed) (phoff : ℕ) : Prop :=
  s.offset ≤ phoff ∧ phoff < s.offset + s.filesz

/-- `TASK_SIZE`, for the largest address space there is. -/
def taskSize : ℕ := 2 ^ 52

/-- **What the kernel asks of a header**: address and offset lie at the same place of their
pages, where the file has a part in the segment, this part is no longer than the segment, and
the addresses exist. -/
structure ProgramHeader.Accepted (ph : ProgramHeader) (page : PageSize) : Prop where
  congruent : 0 < ph.filesz.toNat → ph.vaddr.toNat % page.size = ph.offset.toNat % page.size
  filesz_le : ph.filesz.toNat ≤ ph.memsz.toNat
  inSpace : ph.vaddr.toNat + ph.memsz.toNat ≤ taskSize

/-! ### Words -/

variable {page : PageSize}

theorem PageSize.size_pos (page : PageSize) : 0 < page.size := Nat.two_pow_pos _

theorem PageSize.size_le (page : PageSize) : page.size ≤ 2 ^ 21 :=
  Nat.pow_le_pow_right (by decide) page.le

theorem PageSize.toNat_word (page : PageSize) : page.word.toNat = page.size := by
  rw [PageSize.word, UInt64.toNat_ofNat']
  exact Nat.mod_eq_of_lt (Nat.lt_of_le_of_lt page.size_le (by decide))

theorem PageSize.toNat_mask (page : PageSize) : page.mask.toNat = 2 ^ 64 - page.size := by
  have hle := page.size_le
  have hpos := page.size_pos
  have hone : (page.word - 1).toNat = page.size - 1 := by
    rw [UInt64.toNat_sub_of_le _ _ (by rw [UInt64.le_iff_toNat_le, page.toNat_word]; exact hpos),
      page.toNat_word]
    rfl
  rw [PageSize.mask, UInt64.toNat_not, hone]
  have : UInt64.size = 2 ^ 64 := rfl
  omega

/-- The mask cuts an address at its page. -/
theorem toNat_and_mask (x : UInt64) :
    (x &&& page.mask).toNat = x.toNat / page.size * page.size := by
  have hlt : x.toNat < 2 ^ 64 := x.toNat_lt
  have hle := page.le
  rw [UInt64.toNat_and, page.toNat_mask, PageSize.size]
  apply Nat.eq_of_testBit_eq
  intro i
  have hmask : 2 ^ 64 - 2 ^ page.bits = 2 ^ 64 - (2 ^ page.bits - 1 + 1) := by
    have := Nat.two_pow_pos page.bits
    omega
  rw [Nat.testBit_and, hmask, Nat.testBit_two_pow_sub_succ, Nat.testBit_two_pow_sub_one,
    Nat.testBit_mul_two_pow, Nat.testBit_div_two_pow]
  · by_cases hi : i < page.bits
    · simp [hi]
    · by_cases h64 : i < 64
      · have hsum : i - page.bits + page.bits = i := by omega
        have : page.bits ≤ i := by omega
        simp [hi, h64, hsum, this]
      · have hzero : x.toNat.testBit i = false :=
          Nat.testBit_lt_two_pow (Nat.lt_of_lt_of_le hlt
            (Nat.pow_le_pow_right (by decide) (by omega)))
        have hsum : i - page.bits + page.bits = i := by omega
        rw [hsum]
        simp [hzero]
  · have hpow : 2 ^ page.bits ≤ 2 ^ 21 := Nat.pow_le_pow_right (by decide) hle
    omega

/-- The page of an address, above a base. -/
theorem toNat_cut_add {x base : UInt64} (hbase : base.toNat % page.size = 0)
    (hlt : base.toNat + x.toNat < 2 ^ 64) :
    ((x &&& page.mask) + base).toNat = (base.toNat + x.toNat) / page.size * page.size := by
  obtain ⟨c, hc⟩ := Nat.dvd_of_mod_eq_zero hbase
  have hle := Nat.div_mul_le_self x.toNat page.size
  rw [UInt64.toNat_add, toNat_and_mask, hc, Nat.mul_add_div page.size_pos, Nat.add_mul,
    Nat.mul_comm page.size c, Nat.mod_eq_of_lt]
  · omega
  · rw [Nat.mul_comm c, ← hc]
    omega

/-! ### Statements -/

variable {bytes : List UInt8} {m : TraceeMemory} {a k d : ℕ}
  {addr length prot offset clearLength : UInt64}

theorem mmapFixed_eq (hP : 0 < P) (hsize : m.pageSize = P) (haddr : addr.toNat = a * P)
    (hlength : length.toNat = (k + 1) * P) (content : ℕ → UInt8) :
    mmapFixed m addr length content = m.overlay ⟨a, a + k, content⟩ := by
  have hlast : (a * P + (k + 1) * P - 1) / P = a + k := by
    have hsum : a * P + (k + 1) * P - 1 = (P - 1) + (a + k) * P := by
      rw [Nat.add_mul, Nat.add_mul]
      omega
    rw [hsum, Nat.add_mul_div_right _ _ hP, Nat.div_eq_of_lt (by omega), Nat.zero_add]
  rw [mmapFixed, hsize, haddr, hlength, Nat.mul_div_cancel _ hP, hlast]

theorem length_ne_zero (hP : 0 < P) (hlength : length.toNat = (k + 1) * P) : length ≠ 0 := by
  rintro rfl
  rw [Nat.add_mul, Nat.one_mul] at hlength
  have hzero : (0 : UInt64).toNat = 0 := rfl
  omega

theorem runStatement_anon (hP : 0 < P) (hsize : m.pageSize = P) (haddr : addr.toNat = a * P)
    (hlength : length.toNat = (k + 1) * P) :
    runStatement bytes m (.mmapAnon addr length prot offset clearLength) =
      some (m.overlay ⟨a, a + k, fun _ => 0⟩) := by
  rw [runStatement, if_neg, mmapFixed_eq hP hsize haddr hlength]
  rw [hsize, haddr, Nat.mul_mod_left, not_or, not_not]
  exact ⟨rfl, length_ne_zero hP hlength⟩

/-- A mapping of the file, with the range that is cleared. -/
theorem runStatement_file (hP : 0 < P) (hsize : m.pageSize = P) (haddr : addr.toNat = a * P)
    (hlength : length.toNat = (k + 1) * P) (hoffset : offset.toNat = d * P)
    (hclear : clearLength.toNat ≤ maxClear) (hfile : (d + k + 1) * P ≤ maxFile) :
    runStatement bytes m (.mmapFile addr length prot offset clearLength) =
      if clearLength.toNat = 0 then
        some (m.overlay ⟨a, a + k, fun x => fileByte bytes (d * P + (x - a * P))⟩)
      else if prot &&& writeBit ≠ 0 ∧ (d + k) * P < bytes.length then
        some ((m.overlay ⟨a, a + k, fun x => fileByte bytes (d * P + (x - a * P))⟩).put
          ((a + k + 1) * P - clearLength.toNat) (List.replicate clearLength.toNat 0))
      else none := by
  have hlast : (d * P + (k + 1) * P - 1) / P = d + k := by
    have hsum : d * P + (k + 1) * P - 1 = (P - 1) + (d + k) * P := by
      rw [Nat.add_mul, Nat.add_mul]
      omega
    rw [hsum, Nat.add_mul_div_right _ _ hP, Nat.div_eq_of_lt (by omega), Nat.zero_add]
  have hstop : a * P + (k + 1) * P = (a + k + 1) * P := by
    rw [← Nat.add_mul, Nat.add_assoc]
  have hzero : clearLength = 0 ↔ clearLength.toNat = 0 := by
    rw [← UInt64.toNat_inj]
    rfl
  have hor : (clearLength = 0 ∨ maxClear < clearLength.toNat) ↔ clearLength.toNat = 0 := by
    rw [hzero, or_iff_left (Nat.not_lt.2 hclear)]
  rw [runStatement, if_neg, mmapFixed_eq hP hsize haddr hlength, haddr, hoffset, hlength, hsize,
    hlast, hstop]
  · dsimp only
    simp only [hor]
  · have hend : d * P + (k + 1) * P = (d + k + 1) * P := by
      rw [← Nat.add_mul, Nat.add_assoc]
    rw [hsize, haddr, hoffset, hlength, hend, Nat.mul_mod_left, Nat.mul_mod_left, not_or, not_or,
      not_or, not_not]
    exact ⟨rfl, rfl, length_ne_zero hP hlength, Nat.not_lt.2 hfile⟩

/-- A mapping behind the largest offset. -/
theorem runStatement_behind (hlength : length.toNat = (k + 1) * P) (hoffset : offset.toNat = d * P)
    (hfile : ¬ (d + k + 1) * P ≤ maxFile) :
    runStatement bytes m (.mmapFile addr length prot offset clearLength) = none := by
  have hend : d * P + (k + 1) * P = (d + k + 1) * P := by
    rw [← Nat.add_mul, Nat.add_assoc]
  rw [runStatement, if_pos]
  rw [hoffset, hlength, hend]
  exact .inr (.inr (.inr (Nat.not_le.1 hfile)))

/-! ### The memory of a segment -/

/-- The mapping of the file for a segment. -/
def Placed.filePatch (s : Placed) (page : PageSize) (bytes : List UInt8) : Patch UInt8 where
  first := s.vaddr / page.size
  last := (s.vaddr + s.filesz) / page.size
  content := fun x =>
    fileByte bytes (s.offset / page.size * page.size + (x - s.vaddr / page.size * page.size))

/-- The end of the file's pages. -/
def Placed.stop (s : Placed) (page : PageSize) : ℕ :=
  ((s.vaddr + s.filesz) / page.size + 1) * page.size

theorem value_put_zeros (a n x : ℕ) : (m.put a (List.replicate n 0)).value x =
    if a ≤ x ∧ x < a + n then 0 else m.value x := by
  split_ifs with hin
  · obtain ⟨i, rfl⟩ := Nat.exists_eq_add_of_le hin.1
    have hlt : i < (List.replicate n (0 : UInt8)).length := by
      rw [List.length_replicate]
      omega
    have hvalue := value_put_inside (m := m) (a := a) hlt
    rw [List.getElem?_replicate, if_pos (by omega), Option.some.injEq] at hvalue
    exact hvalue
  · exact value_put_outside (by rw [List.length_replicate]; omega)

theorem div_le_iff {n x : ℕ} (hP : 0 < P) : x / P ≤ n ↔ x < (n + 1) * P := by
  rw [← Nat.lt_succ_iff, Nat.div_lt_iff_lt_mul hP]

theorem overlay_full (hfull : s.filesz = s.memsz) :
    m.overlay (s.filePatch page bytes) = m.overlay (s.patch page bytes) := by
  have hreaches : ∀ p, (s.filePatch page bytes).reaches p = (s.patch page bytes).reaches p :=
    fun p => by
      rw [Placed.filePatch, Placed.patch, hfull]
      rfl
  refine eq_of_same rfl (fun p => ?_) (fun x => ?_)
  · rw [isMapped_overlay, isMapped_overlay, hreaches]
  · rw [value_overlay, value_overlay, hreaches]
    split_ifs
    · exact (if_neg (by omega)).symm
    · rfl

/-- **The cleared end of the file's pages, and the pages behind it.** -/
theorem overlay_cleared (hsize : m.pageSize = page.size) (hlt : s.filesz < s.memsz)
    (m' : TraceeMemory) (htail : m' = ((m.overlay (s.filePatch page bytes)).put (s.vaddr + s.filesz)
      (List.replicate (s.stop page - (s.vaddr + s.filesz)) 0)).overlay
        ⟨(s.vaddr + s.filesz) / page.size + 1, (s.vaddr + s.memsz) / page.size, fun _ => 0⟩) :
    m' = m.overlay (s.patch page bytes) := by
  have hmono : (s.vaddr + s.filesz) / page.size ≤ (s.vaddr + s.memsz) / page.size :=
    Nat.div_le_div_right (by omega)
  have hfirst : s.vaddr / page.size ≤ (s.vaddr + s.filesz) / page.size :=
    Nat.div_le_div_right (by omega)
  have hstop : s.vaddr + s.filesz < s.stop page := by
    rw [Placed.stop, ← div_le_iff page.size_pos]
  rw [htail]
  refine eq_of_same rfl (fun p => ?_) (fun x => ?_)
  · have hput : ∀ (a : ℕ) (data : List UInt8) (m : TraceeMemory),
        (m.put a data).isMapped p = m.isMapped p := fun _ _ _ => rfl
    rw [isMapped_overlay, hput, isMapped_overlay, isMapped_overlay, Bool.or_assoc]
    congr 1
    rw [Bool.eq_iff_iff, Bool.or_eq_true, Patch.reaches_iff, Patch.reaches_iff,
      Patch.reaches_iff]
    simp only [Placed.filePatch, Placed.patch]
    omega
  · have hpage : x / page.size ≤ (s.vaddr + s.filesz) / page.size ↔ x < s.stop page :=
      div_le_iff page.size_pos
    have hclear : s.vaddr + s.filesz + (s.stop page - (s.vaddr + s.filesz)) = s.stop page := by
      omega
    have hput : ∀ (a : ℕ) (data : List UInt8), ((m.overlay (s.filePatch page bytes)).put a
        data).pageSize = page.size := fun _ _ => hsize
    rw [value_overlay, hput, value_put_zeros, hclear, value_overlay, value_overlay, hsize]
    simp only [Patch.reaches_iff, Placed.filePatch, Placed.patch, Placed.byte]
    -- The bytes of the file are in front of its end, and zeros behind it.
    by_cases hx : x < s.vaddr + s.filesz
    · have hle : x / page.size ≤ (s.vaddr + s.filesz) / page.size := Nat.div_le_div_right hx.le
      split_ifs <;> first | rfl | omega
    · have hle : (s.vaddr + s.filesz) / page.size ≤ x / page.size :=
        Nat.div_le_div_right (Nat.not_lt.1 hx)
      split_ifs <;> first | rfl | omega

/-! ### The statements of a header -/

section Header

variable {ph : ProgramHeader} {base : UInt64}

/-- The end of the pages of a range. -/
theorem toNat_stop {start n : UInt64} (h : start.toNat + n.toNat ≤ taskSize) :
    ((start + n + page.word) &&& page.mask).toNat =
      ((start.toNat + n.toNat) / page.size + 1) * page.size := by
  have hle := page.size_le
  rw [taskSize] at h
  rw [toNat_and_mask, UInt64.toNat_add, UInt64.toNat_add, page.toNat_word,
    Nat.mod_eq_of_lt (a := start.toNat + n.toNat) (by omega), Nat.mod_eq_of_lt (by omega),
    Nat.add_div_right _ page.size_pos]

theorem toNat_stop_add {start n : UInt64} (hbase : base.toNat % page.size = 0)
    (hlt : base.toNat < 2 ^ 63) (h : start.toNat + n.toNat ≤ taskSize) :
    (((start + n + page.word) &&& page.mask) + base).toNat =
      ((base.toNat + start.toNat + n.toNat) / page.size + 1) * page.size := by
  have hle := page.size_le
  rw [taskSize] at h
  have hsum : (start + n + page.word).toNat = start.toNat + n.toNat + page.size := by
    rw [UInt64.toNat_add, UInt64.toNat_add, page.toNat_word,
      Nat.mod_eq_of_lt (a := start.toNat + n.toNat) (by omega), Nat.mod_eq_of_lt (by omega)]
  rw [toNat_cut_add hbase (by omega), hsum, ← Nat.add_div_right _ page.size_pos]
  congr 2
  omega

theorem add_div_of_aligned {b y : ℕ} (hP : 0 < P) (hb : b % P = 0) :
    (b + y) / P = b / P + y / P := by
  obtain ⟨c, rfl⟩ := Nat.dvd_of_mod_eq_zero hb
  rw [Nat.mul_add_div hP, Nat.mul_div_cancel_left _ hP]

theorem add_div_of_mod {x y : ℕ} (hP : 0 < P) : (x + y) / P = x / P + (x % P + y) / P := by
  have hx := Nat.div_add_mod x P
  calc (x + y) / P = (P * (x / P) + (x % P + y)) / P := by rw [← Nat.add_assoc, hx]
    _ = x / P + (x % P + y) / P := Nat.mul_add_div hP _ _

theorem protOf_and_writeBit (flags : UInt64) :
    protOf flags &&& writeBit ≠ 0 ↔ flags &&& writeBit ≠ 0 := by
  by_cases hwrite : flags &&& writeBit = 0
  · rw [protOf, if_neg (not_not_intro hwrite)]
    refine iff_of_false ?_ (not_not_intro hwrite)
    split_ifs
    all_goals decide
  · rw [protOf, if_pos hwrite]
    refine iff_of_true ?_ hwrite
    split_ifs
    all_goals decide

/-- The mapping of the file for a header. -/
def fileStatement (page : PageSize) (base : UInt64) (ph : ProgramHeader) (clear : UInt64) :
    Statement :=
  .mmapFile ((ph.vaddr &&& page.mask) + base)
    (((ph.vaddr + ph.filesz + page.word) &&& page.mask) - (ph.vaddr &&& page.mask))
    (protOf ph.flags) (ph.offset &&& page.mask) clear

/-- The length of what is cleared in the file's pages. -/
def clearedLength (page : PageSize) (ph : ProgramHeader) : UInt64 :=
  ((ph.vaddr + ph.filesz + page.word) &&& page.mask) - ph.vaddr - ph.filesz

theorem runStatements_cons {statement : Statement} {statements : List Statement}
    {m' : TraceeMemory} (h : runStatement bytes m statement = some m') :
    runStatements bytes m (statement :: statements) = runStatements bytes m' statements := by
  rw [runStatements, h]

theorem runStatements_none {statement : Statement} {statements : List Statement}
    (h : runStatement bytes m statement = none) :
    runStatements bytes m (statement :: statements) = none := by
  rw [runStatements, h]

/-- The statements of a header. -/
def headerStatements (page : PageSize) (base : UInt64) (ph : ProgramHeader) : List Statement :=
  transcriptMappings (applyLoadBase base (mapSegment page ph))

theorem headerStatements_full (h : ¬ ph.filesz < ph.memsz) : headerStatements page base ph =
    [fileStatement page base ph 0] := by
  have hfile : ¬ mapFixed &&& mapAnonymous ≠ 0 := by decide
  rw [headerStatements, mapSegment]
  simp only [if_neg h, if_neg fun hboth : ph.filesz < ph.memsz ∧ _ => h hboth.1, applyLoadBase,
    transcriptMappings, List.map_cons, List.map_nil, if_neg hfile]
  rfl

theorem headerStatements_cleared (h : ph.filesz < ph.memsz) : headerStatements page base ph =
    fileStatement page base ph (clearedLength page ph) ::
    if ((ph.vaddr + ph.filesz + page.word) &&& page.mask) <
        ((ph.vaddr + ph.memsz + page.word) &&& page.mask) then
      [.mmapAnon (((ph.vaddr + ph.filesz + page.word) &&& page.mask) + base)
        (((ph.vaddr + ph.memsz + page.word) &&& page.mask) -
          ((ph.vaddr + ph.filesz + page.word) &&& page.mask)) (protOf ph.flags) 0 0]
    else [] := by
  have hfile : ¬ mapFixed &&& mapAnonymous ≠ 0 := by decide
  have hanon : (mapFixed ||| mapAnonymous) &&& mapAnonymous ≠ 0 := by decide
  rw [headerStatements, mapSegment]
  by_cases hbehind : ((ph.vaddr + ph.filesz + page.word) &&& page.mask) <
      ((ph.vaddr + ph.memsz + page.word) &&& page.mask)
  · rw [if_pos hbehind]
    simp only [if_pos h, if_pos (And.intro h hbehind), applyLoadBase, transcriptMappings,
      List.map_cons, List.map_nil, if_neg hfile, if_pos hanon]
    rfl
  · rw [if_neg hbehind]
    simp only [if_pos h, if_neg fun hboth : ph.filesz < ph.memsz ∧ _ => hbehind hboth.2,
      applyLoadBase, transcriptMappings, List.map_cons, List.map_nil, if_neg hfile]
    rfl

/-- The mapping of the file is the first statement of a header. -/
theorem headerStatements_file (page : PageSize) (base : UInt64) (ph : ProgramHeader) :
    ∃ clear rest, headerStatements page base ph = fileStatement page base ph clear :: rest := by
  by_cases hmore : ph.filesz < ph.memsz
  · exact ⟨_, _, headerStatements_cleared hmore⟩
  · exact ⟨_, _, headerStatements_full hmore⟩

theorem clear_le_maxClear (s : Placed) : s.stop page - (s.vaddr + s.filesz) ≤ maxClear := by
  have hle := page.size_le
  have hmod := Nat.div_add_mod' (s.vaddr + s.filesz) page.size
  rw [Placed.stop, Nat.add_mul, Nat.one_mul, maxClear]
  omega

theorem clear_pos (s : Placed) : 0 < s.stop page - (s.vaddr + s.filesz) := by
  have hstop : s.vaddr + s.filesz < s.stop page := (div_le_iff page.size_pos).1 (Nat.le_refl _)
  omega

variable (hacc : ph.Accepted page) (hbase : base.toNat % page.size = 0)
  (hlt : base.toNat < 2 ^ 63)

include hacc hbase hlt

/-- The words of the mapping of the file. -/
theorem file_words :
    ∃ k, ((ph.vaddr &&& page.mask) + base).toNat =
        (base.toNat + ph.vaddr.toNat) / page.size * page.size ∧
      (((ph.vaddr + ph.filesz + page.word) &&& page.mask) - (ph.vaddr &&& page.mask)).toNat =
        (k + 1) * page.size ∧
      (base.toNat + ph.vaddr.toNat) / page.size + k =
        (base.toNat + ph.vaddr.toNat + ph.filesz.toNat) / page.size ∧
      ph.offset.toNat / page.size + k = (ph.offset.toNat + ph.filesz.toNat) / page.size := by
  have hP := page.size_pos
  have hspace := hacc.inSpace
  have hfilesz := hacc.filesz_le
  rw [taskSize] at hspace
  have hmono : ph.vaddr.toNat / page.size ≤ (ph.vaddr.toNat + ph.filesz.toNat) / page.size :=
    Nat.div_le_div_right (Nat.le_add_right _ _)
  have hstop := @toNat_stop page ph.vaddr ph.filesz (by rw [taskSize]; omega)
  have hstart := @toNat_and_mask page ph.vaddr
  refine ⟨(ph.vaddr.toNat + ph.filesz.toNat) / page.size - ph.vaddr.toNat / page.size,
    toNat_cut_add hbase (by omega), ?_, ?_, ?_⟩
  · rw [UInt64.toNat_sub_of_le, hstop, hstart, ← Nat.sub_mul]
    · congr 1
      omega
    · rw [UInt64.le_iff_toNat_le, hstop, hstart]
      exact Nat.mul_le_mul_right _ (by omega)
  · rw [Nat.add_assoc base.toNat, add_div_of_aligned hP hbase, add_div_of_aligned hP hbase]
    omega
  · have hv := @add_div_of_mod _ ph.vaddr.toNat ph.filesz.toNat hP
    have ho := @add_div_of_mod _ ph.offset.toNat ph.filesz.toNat hP
    by_cases hzero : ph.filesz.toNat = 0
    · rw [hzero, Nat.add_zero, Nat.add_zero, Nat.sub_self, Nat.add_zero]
    · rw [hacc.congruent (Nat.pos_of_ne_zero hzero)] at hv
      omega

/-- The mapping of the file, where it is placed. -/
theorem run_file (hsize : m.pageSize = page.size) {clear : UInt64} (hclear : clear.toNat ≤ maxClear)
    (hfile : ((ph.offset.toNat + ph.filesz.toNat) / page.size + 1) * page.size ≤ maxFile) :
    runStatement bytes m (fileStatement page base ph clear) =
      if clear.toNat = 0 then some (m.overlay ((ph.placed base.toNat).filePatch page bytes))
      else if (ph.placed base.toNat).writable = true ∧
          ((ph.placed base.toNat).offset + (ph.placed base.toNat).filesz) / page.size *
            page.size < bytes.length then
        some ((m.overlay ((ph.placed base.toNat).filePatch page bytes)).put
          ((ph.placed base.toNat).stop page - clear.toNat) (List.replicate clear.toNat 0))
      else none := by
  obtain ⟨k, haddr, hlength, hlast, hoffset⟩ := file_words hacc hbase hlt
  have hmapping : (⟨(base.toNat + ph.vaddr.toNat) / page.size,
      (base.toNat + ph.vaddr.toNat + ph.filesz.toNat) / page.size, fun x =>
        fileByte bytes (ph.offset.toNat / page.size * page.size +
          (x - (base.toNat + ph.vaddr.toNat) / page.size * page.size))⟩ : Patch UInt8) =
      (ph.placed base.toNat).filePatch page bytes := rfl
  rw [fileStatement, runStatement_file page.size_pos hsize haddr hlength (toNat_and_mask _) hclear
    (hoffset ▸ hfile), hlast, hoffset, hmapping]
  refine if_congr Iff.rfl rfl (if_congr ?_ rfl rfl)
  rw [protOf_and_writeBit, ProgramHeader.placed, decide_eq_true_eq]

/-- Pages that no file has. -/
theorem run_file_behind {clear : UInt64}
    (hfile : ¬ ((ph.offset.toNat + ph.filesz.toNat) / page.size + 1) * page.size ≤ maxFile) :
    runStatement bytes m (fileStatement page base ph clear) = none := by
  obtain ⟨k, -, hlength, -, hoffset⟩ := file_words hacc hbase hlt
  exact runStatement_behind hlength (toNat_and_mask _) (hoffset ▸ hfile)

/-- The anonymous mapping, where it is placed. -/
theorem run_anon (hsize : m.pageSize = page.size)
    (hbehind : ((ph.vaddr + ph.filesz + page.word) &&& page.mask) <
      ((ph.vaddr + ph.memsz + page.word) &&& page.mask)) :
    runStatement bytes m (.mmapAnon (((ph.vaddr + ph.filesz + page.word) &&& page.mask) + base)
        (((ph.vaddr + ph.memsz + page.word) &&& page.mask) -
          ((ph.vaddr + ph.filesz + page.word) &&& page.mask))
        (protOf ph.flags) 0 0) =
      some (m.overlay ⟨((ph.placed base.toNat).vaddr + (ph.placed base.toNat).filesz) /
        page.size + 1, ((ph.placed base.toNat).vaddr + (ph.placed base.toNat).memsz) / page.size,
        fun _ => 0⟩) := by
  have hP := page.size_pos
  have hspace := hacc.inSpace
  have hfilesz := hacc.filesz_le
  have hstop := @toNat_stop page ph.vaddr ph.filesz (by omega)
  have hnewStop := @toNat_stop page ph.vaddr ph.memsz hspace
  have haddr := @toNat_stop_add page base ph.vaddr ph.filesz hbase hlt (by omega)
  rw [UInt64.lt_iff_toNat_lt, hstop, hnewStop] at hbehind
  have hlt' : (ph.vaddr.toNat + ph.filesz.toNat) / page.size <
      (ph.vaddr.toNat + ph.memsz.toNat) / page.size := by
    have hpages := Nat.lt_of_mul_lt_mul_right hbehind
    omega
  have hlength : (((ph.vaddr + ph.memsz + page.word) &&& page.mask) -
      ((ph.vaddr + ph.filesz + page.word) &&& page.mask)).toNat =
      ((ph.vaddr.toNat + ph.memsz.toNat) / page.size -
        (ph.vaddr.toNat + ph.filesz.toNat) / page.size - 1 + 1) * page.size := by
    rw [UInt64.toNat_sub_of_le, hstop, hnewStop, ← Nat.sub_mul]
    · congr 1
      omega
    · rw [UInt64.le_iff_toNat_le, hstop, hnewStop]
      exact hbehind.le
  have hlast : (base.toNat + ph.vaddr.toNat + ph.filesz.toNat) / page.size + 1 +
      ((ph.vaddr.toNat + ph.memsz.toNat) / page.size -
        (ph.vaddr.toNat + ph.filesz.toNat) / page.size - 1) =
      (base.toNat + ph.vaddr.toNat + ph.memsz.toNat) / page.size := by
    rw [Nat.add_assoc base.toNat, Nat.add_assoc base.toNat, add_div_of_aligned hP hbase,
      add_div_of_aligned hP hbase]
    omega
  rw [runStatement_anon hP hsize haddr hlength, hlast]
  rfl

omit hlt in
/-- The words of the cleared range. -/
theorem toNat_clear :
    (clearedLength page ph).toNat =
      (ph.placed base.toNat).stop page -
        ((ph.placed base.toNat).vaddr + (ph.placed base.toNat).filesz) := by
  have hP := page.size_pos
  have hspace := hacc.inSpace
  have hfilesz := hacc.filesz_le
  have hstop := @toNat_stop page ph.vaddr ph.filesz (by omega)
  have hover : ph.vaddr.toNat + ph.filesz.toNat <
      ((ph.vaddr.toNat + ph.filesz.toNat) / page.size + 1) * page.size :=
    (div_le_iff hP).1 (Nat.le_refl _)
  have hfirst : (((ph.vaddr + ph.filesz + page.word) &&& page.mask) - ph.vaddr).toNat =
      ((ph.vaddr.toNat + ph.filesz.toNat) / page.size + 1) * page.size - ph.vaddr.toNat := by
    rw [UInt64.toNat_sub_of_le, hstop]
    rw [UInt64.le_iff_toNat_le, hstop]
    omega
  have hbasePages : base.toNat / page.size * page.size = base.toNat :=
    Nat.div_mul_cancel (Nat.dvd_of_mod_eq_zero hbase)
  rw [clearedLength, UInt64.toNat_sub_of_le, hfirst]
  · change _ = ((base.toNat + ph.vaddr.toNat + ph.filesz.toNat) / page.size + 1) * page.size -
      (base.toNat + ph.vaddr.toNat + ph.filesz.toNat)
    rw [Nat.add_assoc base.toNat, add_div_of_aligned hP hbase, Nat.add_assoc,
      Nat.add_mul (base.toNat / page.size), hbasePages]
    omega
  · rw [UInt64.le_iff_toNat_le, hfirst]
    omega

/-- The mapping of the file, with its end cleared. -/
theorem run_file_cleared (hsize : m.pageSize = page.size)
    (hfile : ((ph.offset.toNat + ph.filesz.toNat) / page.size + 1) * page.size ≤ maxFile) :
    runStatement bytes m (fileStatement page base ph (clearedLength page ph)) =
      if (ph.placed base.toNat).writable = true ∧
          ((ph.placed base.toNat).offset + (ph.placed base.toNat).filesz) / page.size *
            page.size < bytes.length then
        some ((m.overlay ((ph.placed base.toNat).filePatch page bytes)).put
          ((ph.placed base.toNat).vaddr + (ph.placed base.toNat).filesz)
          (List.replicate ((ph.placed base.toNat).stop page -
            ((ph.placed base.toNat).vaddr + (ph.placed base.toNat).filesz)) 0))
      else none := by
  have hclear := @toNat_clear page ph base hacc hbase
  have hpos := @clear_pos page (ph.placed base.toNat)
  rw [run_file hacc hbase hlt hsize (hclear ▸ clear_le_maxClear _) hfile, hclear,
    if_neg (Nat.pos_iff_ne_zero.1 hpos), Nat.sub_sub_self (Nat.le_of_lt (Nat.lt_of_sub_pos hpos))]

/-- What a header does to the memory. -/
theorem run_header (hsize : m.pageSize = page.size)
    (hloadable : (ph.placed base.toNat).Loadable page bytes) :
    runStatements bytes m (headerStatements page base ph) =
      some (m.overlay ((ph.placed base.toNat).patch page bytes)) := by
  by_cases hmore : ph.filesz < ph.memsz
  · have hlt' : (ph.placed base.toNat).filesz < (ph.placed base.toNat).memsz :=
      UInt64.lt_iff_toNat_lt.1 hmore
    have hfile := @run_file_cleared page bytes m ph base hacc hbase hlt hsize hloadable.inFile
    rw [if_pos (hloadable.clearable hlt')] at hfile
    rw [headerStatements_cleared hmore, runStatements_cons hfile,
      ← overlay_cleared hsize hlt' _ rfl]
    split_ifs with hbehind
    · refine (runStatements_cons (run_anon hacc hbase hlt ?_ hbehind)).trans rfl
      exact hsize
    · have hspace := hacc.inSpace
      have hfilesz := hacc.filesz_le
      rw [UInt64.lt_iff_toNat_lt, @toNat_stop page ph.vaddr ph.filesz (by omega),
        @toNat_stop page ph.vaddr ph.memsz hspace, Nat.mul_lt_mul_right page.size_pos] at hbehind
      have hlast : ((ph.placed base.toNat).vaddr + (ph.placed base.toNat).memsz) / page.size <
          ((ph.placed base.toNat).vaddr + (ph.placed base.toNat).filesz) / page.size + 1 := by
        change (base.toNat + ph.vaddr.toNat + ph.memsz.toNat) / page.size <
          (base.toNat + ph.vaddr.toNat + ph.filesz.toNat) / page.size + 1
        rw [Nat.add_assoc base.toNat, Nat.add_assoc base.toNat,
          add_div_of_aligned page.size_pos hbase, add_div_of_aligned page.size_pos hbase]
        omega
      rw [runStatements]
      exact congrArg some (overlay_empty hlast).symm
  · have hfull : (ph.placed base.toNat).filesz = (ph.placed base.toNat).memsz :=
      Nat.le_antisymm hacc.filesz_le (Nat.not_lt.1 fun h => hmore (UInt64.lt_iff_toNat_lt.2 h))
    have hfile := @run_file page bytes m ph base hacc hbase hlt hsize 0 (Nat.zero_le _)
      hloadable.inFile
    have hzero : (0 : UInt64).toNat = 0 := rfl
    rw [if_pos hzero, overlay_full hfull] at hfile
    rw [headerStatements_full hmore, runStatements_cons hfile]
    rfl

/-- Where the pages do not exist the loader gives up, and where the place cannot be cleared it
is killed. -/
theorem run_header_none (hsize : m.pageSize = page.size)
    (hloadable : ¬ (ph.placed base.toNat).Loadable page bytes) :
    runStatements bytes m (headerStatements page base ph) = none := by
  by_cases hinFile : ((ph.offset.toNat + ph.filesz.toNat) / page.size + 1) * page.size ≤ maxFile
  · have hclearable : ¬ ((ph.placed base.toNat).filesz < (ph.placed base.toNat).memsz →
        (ph.placed base.toNat).writable = true ∧
          ((ph.placed base.toNat).offset + (ph.placed base.toNat).filesz) / page.size *
            page.size < bytes.length) := fun h => hloadable ⟨hinFile, h⟩
    rw [Classical.not_imp] at hclearable
    have hmore : ph.filesz < ph.memsz := UInt64.lt_iff_toNat_lt.2 hclearable.1
    have hfile := @run_file_cleared page bytes m ph base hacc hbase hlt hsize hinFile
    rw [if_neg hclearable.2] at hfile
    rw [headerStatements_cleared hmore, runStatements_none hfile]
  · obtain ⟨clear, rest, heq⟩ := headerStatements_file page base ph
    rw [heq, runStatements_none (run_file_behind hacc hbase hlt hinFile)]

end Header

/-! ### The program -/

variable {img : ElfImage}

/-- The pages that are mapped for a program. -/
def ElfImage.patches (img : ElfImage) (page : PageSize) : List (Patch UInt8) :=
  (img.placed page).map fun s => s.patch page img.bytes

theorem loadBase_aligned (img : ElfImage) (page : PageSize) :
    (img.loadBase page).toNat % page.size = 0 ∧ (img.loadBase page).toNat < 2 ^ 40 := by
  have hrole : ∀ role : Role, role.base.toNat % page.size = 0 ∧ role.base.toNat < 2 ^ 40 := by
    intro role
    have hdvd : 2 ^ page.bits ∣ 2 ^ 21 := Nat.pow_dvd_pow 2 page.le
    have hbase : 2 ^ 21 ∣ role.base.toNat := by
      cases role with
      | main | interp => decide
    refine ⟨Nat.mod_eq_zero_of_dvd (Nat.dvd_trans hdvd hbase), ?_⟩
    cases role with
    | main | interp => decide
  unfold ElfImage.loadBase
  split
  · exact ⟨Nat.zero_mod _, by decide⟩
  · split_ifs
    · exact hrole img.role
    · exact ⟨Nat.zero_mod _, by decide⟩

theorem runStatements_append (m : TraceeMemory) (as bs : List Statement) :
    runStatements bytes m (as ++ bs) =
      (runStatements bytes m as).bind fun m => runStatements bytes m bs := by
  induction as generalizing m with
  | nil => rfl
  | cons a as ih =>
    rw [List.cons_append]
    cases ha : runStatement bytes m a with
    | none => rw [runStatements_none ha, runStatements_none ha, Option.bind_none]
    | some m' => rw [runStatements_cons ha, runStatements_cons ha, ih]

theorem load_eq (m : TraceeMemory) : img.load page m = runStatements img.bytes m
    (img.headers.flatMap (headerStatements page (img.loadBase page))) := by
  rw [ElfImage.load, ElfImage.mappings, applyLoadBase, transcriptMappings, List.map_flatMap,
    List.map_flatMap]
  rfl

/-- The pages of the segments are mapped one over the other. -/
theorem load_eq_some (hacc : ∀ ph ∈ img.headers, ph.Accepted page)
    (hloadable : ∀ s ∈ img.placed page, s.Loadable page img.bytes)
    (hsize : m.pageSize = page.size) :
    img.load page m = some ((img.patches page).foldl overlay m) := by
  obtain ⟨hbase, hsmall⟩ := loadBase_aligned img page
  have hlt : (img.loadBase page).toNat < 2 ^ 63 := Nat.lt_trans hsmall (by decide)
  rw [load_eq, ElfImage.patches, ElfImage.placed, List.map_map]
  rw [ElfImage.placed] at hloadable
  generalize img.headers = headers at hacc hloadable
  induction headers generalizing m with
  | nil => rfl
  | cons ph headers ih =>
    have hrun := run_header (hacc ph List.mem_cons_self) hbase hlt hsize
      (hloadable _ List.mem_cons_self)
    rw [List.flatMap_cons, runStatements_append, hrun, Option.bind_some, List.map_cons,
      List.foldl_cons]
    exact ih hsize (fun ph hph => hacc ph (List.mem_cons_of_mem _ hph))
      fun s hs => hloadable s (List.mem_cons_of_mem _ hs)

/-- Only what is loadable is loaded. -/
theorem loadable_of_load (hacc : ∀ ph ∈ img.headers, ph.Accepted page)
    (hsize : m.pageSize = page.size) {m' : TraceeMemory} (h : img.load page m = some m') :
    ∀ s ∈ img.placed page, s.Loadable page img.bytes := by
  obtain ⟨hbase, hsmall⟩ := loadBase_aligned img page
  have hlt : (img.loadBase page).toNat < 2 ^ 63 := Nat.lt_trans hsmall (by decide)
  rw [load_eq] at h
  rw [ElfImage.placed]
  generalize img.headers = headers at hacc h ⊢
  induction headers generalizing m with
  | nil => exact fun s hs => absurd hs (List.not_mem_nil)
  | cons ph headers ih =>
    rw [List.flatMap_cons, runStatements_append] at h
    have hloadable : (ph.placed (img.loadBase page).toNat).Loadable page img.bytes := by
      by_contra hnot
      rw [run_header_none (hacc ph List.mem_cons_self) hbase hlt hsize hnot] at h
      cases h
    rw [run_header (hacc ph List.mem_cons_self) hbase hlt hsize hloadable,
      Option.bind_some] at h
    intro s hs
    obtain rfl | hs := List.mem_cons.1 hs
    · exact hloadable
    · exact ih (by exact hsize) (fun ph hph => hacc ph (List.mem_cons_of_mem _ hph)) h s hs

/-! ### What the kernel would map -/

/-- The memory `m'` has the program that was loaded into `m`. -/
structure LoadedAs (img : ElfImage) (page : PageSize) (m m' : TraceeMemory) : Prop where
  fromFile : ∀ s ∈ img.placed page, ∀ i, i < s.filesz →
    m'.value (s.vaddr + i) = fileByte img.bytes (s.offset + i)
  zero : ∀ s ∈ img.placed page, ∀ i, s.filesz ≤ i → i < s.memsz → m'.value (s.vaddr + i) = 0
  mapped : ∀ s ∈ img.placed page, m'.Mapped s.vaddr s.memsz
  outside : ∀ p, (∀ s ∈ img.placed page, ¬ s.InPages page p) →
    m'.isMapped p = m.isMapped p ∧ ∀ x, x / page.size = p → m'.value x = m.value x

/-- **The program is mapped as the kernel would map it**, whatever was there before, and
`at_phdr` is where the program headers are. -/
structure LoadsAsKernel (img : ElfImage) (page : PageSize) : Prop where
  loaded : ∀ m : TraceeMemory, m.pageSize = page.size →
    ∃ m', img.load page m = some m' ∧ LoadedAs img page m m'
  headers : (∃ s ∈ img.placed page, s.HoldsHeaders img.phoff.toNat) →
    ∃ s ∈ img.placed page, s.HoldsHeaders img.phoff.toNat ∧ ∃ a, img.atPhdr page = some a ∧
      a.toNat = s.vaddr + (img.phoff.toNat - s.offset)

/-- What the headers have to be like. -/
structure Mappable (img : ElfImage) (page : PageSize) : Prop where
  /-- What is to be cleared can be written, and lies in a page of the file. -/
  loadable : ∀ s ∈ img.placed page, s.Loadable page img.bytes
  /-- The page at the end of a segment is one of its own, or of another segment. -/
  ends : ∀ s ∈ img.placed page, ∃ t ∈ img.placed page,
    t.InPages page ((s.vaddr + s.memsz) / page.size)
  /-- The last segment that reaches a page has the same bytes there as any other. -/
  undisturbed : ∀ s ∈ img.placed page, ∀ i, i < s.memsz → ∀ patch,
    Patch.lastPatch (img.patches page) ((s.vaddr + i) / page.size) = some patch →
      patch.content (s.vaddr + i) = s.byte page img.bytes (s.vaddr + i)
  /-- A segment that holds the program headers lies as if the first page that is mapped were
  that of the beginning of the file. -/
  headers : (∃ s ∈ img.placed page, s.HoldsHeaders img.phoff.toNat) →
    ∃ s ∈ img.placed page, s.HoldsHeaders img.phoff.toNat ∧
      ∀ first, (img.placed page).head? = some first →
        s.vaddr = first.vaddr / page.size * page.size + s.offset

theorem patch_reaches_iff {p : ℕ} : (s.patch page bytes).reaches p = true ↔
    s.InPages page p ∨ p = (s.vaddr + s.memsz) / page.size := by
  have hP := page.size_pos
  have hmono : s.vaddr / page.size ≤ (s.vaddr + s.memsz) / page.size :=
    Nat.div_le_div_right (Nat.le_add_right _ _)
  rw [Patch.reaches_iff, Placed.InPages]
  change (s.vaddr / page.size ≤ p ∧ p ≤ (s.vaddr + s.memsz) / page.size) ↔ _
  constructor
  · intro ⟨hfirst, hlast⟩
    by_cases heq : p = (s.vaddr + s.memsz) / page.size
    · exact .inr heq
    · have hnext : (p + 1) * page.size ≤ s.vaddr + s.memsz :=
        (Nat.le_div_iff_mul_le hP).1 (by omega)
      rw [Nat.add_mul] at hnext
      exact .inl ⟨hfirst, by omega⟩
  · rintro (⟨hfirst, hlast⟩ | rfl)
    · exact ⟨hfirst, (Nat.le_div_iff_mul_le hP).2 (Nat.le_of_lt hlast)⟩
    · exact ⟨hmono, Nat.le_refl _⟩

/-- The places of a segment are in its pages. -/
theorem inPages_place (hi : i < s.memsz) : s.InPages page ((s.vaddr + i) / page.size) := by
  have hle := Nat.div_mul_le_self (s.vaddr + i) page.size
  exact ⟨Nat.div_le_div_right (Nat.le_add_right _ _), by omega⟩

theorem exists_patch (hs : s ∈ img.placed page) :
    s.patch page img.bytes ∈ img.patches page := List.mem_map_of_mem hs

/-- The memory of a program that is loaded, at a place of a segment. -/
theorem value_place (hs : s ∈ img.placed page) (hi : i < s.memsz) (hsize : m.pageSize = page.size) :
    ∃ patch, Patch.lastPatch (img.patches page) ((s.vaddr + i) / page.size) = some patch ∧
      ((img.patches page).foldl overlay m).value (s.vaddr + i) = patch.content (s.vaddr + i) := by
  obtain ⟨patch, hlast⟩ := Patch.exists_lastPatch (exists_patch hs)
    (patch_reaches_iff.2 (.inl (inPages_place hi)))
  refine ⟨patch, hlast, ?_⟩
  rw [value_overlays, hsize, hlast]

theorem exists_header (hs : s ∈ img.placed page) :
    ∃ ph ∈ img.headers, ph.placed (img.loadBase page).toNat = s := List.mem_map.1 hs

theorem filesz_le_memsz (hacc : ∀ ph ∈ img.headers, ph.Accepted page) (hs : s ∈ img.placed page) :
    s.filesz ≤ s.memsz := by
  obtain ⟨ph, hph, rfl⟩ := exists_header hs
  exact (hacc ph hph).filesz_le

/-- The place in its page of a segment with a part of the file. -/
theorem placed_congruent (hacc : ∀ ph ∈ img.headers, ph.Accepted page) (hs : s ∈ img.placed page)
    (hfile : 0 < s.filesz) : s.vaddr % page.size = s.offset % page.size := by
  obtain ⟨ph, hph, rfl⟩ := exists_header hs
  obtain ⟨c, hc⟩ := Nat.dvd_of_mod_eq_zero (loadBase_aligned img page).1
  change ((img.loadBase page).toNat + ph.vaddr.toNat) % page.size = ph.offset.toNat % page.size
  rw [hc, Nat.mul_add_mod, (hacc ph hph).congruent hfile]

/-- The bytes of the segment, from the file and behind it. -/
theorem byte_place (hacc : ∀ ph ∈ img.headers, ph.Accepted page) (hs : s ∈ img.placed page)
    (hi : i < s.memsz) :
    s.byte page bytes (s.vaddr + i) =
      if i < s.filesz then fileByte bytes (s.offset + i) else 0 := by
  rw [Placed.byte]
  by_cases hfile : i < s.filesz
  · rw [if_pos hfile, if_neg (by omega)]
    have hcongruent := placed_congruent hacc hs (Nat.zero_lt_of_lt hfile)
    have hvaddr := Nat.div_add_mod' s.vaddr page.size
    have hoffset := Nat.div_add_mod' s.offset page.size
    congr 1
    omega
  · rw [if_neg hfile, if_pos (by omega)]

/-- The bytes are those of every segment exactly where no later one disturbs them. -/
theorem bytes_iff (hacc : ∀ ph ∈ img.headers, ph.Accepted page) (hsize : m.pageSize = page.size) :
    (∀ s ∈ img.placed page, ∀ i, i < s.memsz →
      ((img.patches page).foldl overlay m).value (s.vaddr + i) =
        if i < s.filesz then fileByte img.bytes (s.offset + i) else 0) ↔
    ∀ s ∈ img.placed page, ∀ i, i < s.memsz → ∀ patch,
      Patch.lastPatch (img.patches page) ((s.vaddr + i) / page.size) = some patch →
        patch.content (s.vaddr + i) = s.byte page img.bytes (s.vaddr + i) := by
  refine forall_congr' fun s => forall_congr' fun hs => forall_congr' fun i =>
    forall_congr' fun hi => ?_
  obtain ⟨patch, hlast, hvalue⟩ := value_place hs hi hsize
  rw [hvalue, byte_place hacc hs hi, hlast]
  constructor
  · intro h patch' hpatch
    rw [Option.some.injEq] at hpatch
    rw [← hpatch]
    exact h
  · intro h
    exact h patch rfl

/-- A page that no segment needs is reached by no patch, where the last pages are pages of
segments. -/
theorem not_reached (hends : ∀ s ∈ img.placed page, ∃ t ∈ img.placed page,
      t.InPages page ((s.vaddr + s.memsz) / page.size))
    {p : ℕ} (hp : ∀ s ∈ img.placed page, ¬ s.InPages page p) :
    ∀ patch ∈ img.patches page, patch.reaches p ≠ true := by
  intro patch hpatch hreaches
  obtain ⟨s, hs, rfl⟩ := List.mem_map.1 hpatch
  cases patch_reaches_iff.1 hreaches with
  | inl hin => exact hp s hs hin
  | inr heq =>
    obtain ⟨t, ht, hin⟩ := hends s hs
    exact hp t ht (heq ▸ hin)

/-- The first mapping of a header is that of its file. -/
theorem head_mapSegment (page : PageSize) (ph : ProgramHeader) :
    ∃ file rest, mapSegment page ph = file :: rest ∧ file.addr = ph.vaddr &&& page.mask := by
  rw [mapSegment]
  split_ifs
  all_goals exact ⟨_, _, rfl, rfl⟩

/-- `at_phdr`, from the page of the first segment. -/
theorem atPhdr_eq (hacc : ∀ ph ∈ img.headers, ph.Accepted page)
    (hloadable : ∀ s ∈ img.placed page, s.Loadable page img.bytes) {first : Placed}
    (hfirst : (img.placed page).head? = some first) (hs : s ∈ img.placed page)
    (hholds : s.HoldsHeaders img.phoff.toNat) :
    ∃ a, img.atPhdr page = some a ∧
      a.toNat = img.phoff.toNat + first.vaddr / page.size * page.size := by
  obtain ⟨hbase, hsmall⟩ := loadBase_aligned img page
  obtain ⟨ph', hph', rfl⟩ := exists_header hs
  have hphoff : img.phoff.toNat < ph'.offset.toNat + ph'.filesz.toNat := hholds.2
  have hmod := Nat.div_add_mod' (ph'.offset.toNat + ph'.filesz.toNat) page.size
  have hrest := Nat.mod_lt (ph'.offset.toNat + ph'.filesz.toNat) page.size_pos
  have hend : ((ph'.offset.toNat + ph'.filesz.toNat) / page.size + 1) * page.size ≤ maxFile :=
    (hloadable _ hs).inFile
  rw [Nat.add_mul, Nat.one_mul, maxFile] at hend
  cases hheaders : img.headers with
  | nil =>
    rw [ElfImage.placed, hheaders] at hfirst
    cases hfirst
  | cons ph headers =>
    rw [ElfImage.placed, hheaders, List.map_cons, List.head?_cons, Option.some.injEq] at hfirst
    subst hfirst
    have hspace := (hacc ph (hheaders ▸ List.mem_cons_self)).inSpace
    rw [taskSize] at hspace
    obtain ⟨file, rest, hmap, haddr⟩ := head_mapSegment page ph
    have hcut := @toNat_cut_add page ph.vaddr (img.loadBase page) hbase (by omega)
    have hle := Nat.div_mul_le_self ((img.loadBase page).toNat + ph.vaddr.toNat) page.size
    refine ⟨img.phoff + (file.addr + img.loadBase page), ?_, ?_⟩
    · rw [ElfImage.atPhdr, ElfImage.mappings, hheaders, List.flatMap_cons, hmap]
      rfl
    · rw [UInt64.toNat_add, haddr, hcut, Nat.mod_eq_of_lt (by omega)]
      rfl

/-- **A program is mapped as the kernel would map it exactly where what has to be cleared can
be, no segment ends with its page, no segment disturbs another one, and the headers lie behind
the first mapping as in the file.** -/
theorem loads_iff (hacc : ∀ ph ∈ img.headers, ph.Accepted page) :
    LoadsAsKernel img page ↔ Mappable img page := by
  constructor
  · intro h
    -- A memory where nothing is mapped shows every page that the program maps.
    let m : TraceeMemory := ⟨page.size, fun _ => false, fun _ => 0, page.size_pos⟩
    have hsize : m.pageSize = page.size := rfl
    obtain ⟨m', hload, hm'⟩ := h.loaded m hsize
    have hloadable := loadable_of_load hacc hsize hload
    rw [load_eq_some hacc hloadable hsize, Option.some.injEq] at hload
    subst hload
    refine ⟨hloadable, fun s hs => ?_, ?_, fun hex => ?_⟩
    · by_contra hnot
      have hout := (hm'.outside ((s.vaddr + s.memsz) / page.size)
        fun t ht hin => hnot ⟨t, ht, hin⟩).1
      have hreached : (img.patches page).any (·.reaches ((s.vaddr + s.memsz) / page.size)) =
          true := List.any_eq_true.2 ⟨_, exists_patch hs, patch_reaches_iff.2 (.inr rfl)⟩
      rw [isMapped_overlays, hreached, Bool.or_true] at hout
      cases hout
    · refine (bytes_iff hacc hsize).1 fun s hs i hi => ?_
      split_ifs with hfile
      · exact hm'.fromFile s hs i hfile
      · exact hm'.zero s hs i (Nat.not_lt.1 hfile) hi
    · obtain ⟨s, hs, hholds, a, ha, hplace⟩ := h.headers hex
      refine ⟨s, hs, hholds, fun first hfirst => ?_⟩
      obtain ⟨a', ha', hvalue⟩ := atPhdr_eq hacc hloadable hfirst hs hholds
      rw [ha, Option.some.injEq] at ha'
      subst ha'
      have hle := hholds.1
      omega
  · intro h
    refine ⟨fun m hsize => ⟨_, load_eq_some hacc h.loadable hsize, ?_⟩, fun hex => ?_⟩
    · have hbytes := (bytes_iff hacc hsize).2 h.undisturbed
      refine ⟨fun s hs i hi => ?_, fun s hs i hfile hi => ?_, fun s hs i hi => ?_,
        fun p hp => ⟨?_, fun x hx => ?_⟩⟩
      · rw [hbytes s hs i (Nat.lt_of_lt_of_le hi (filesz_le_memsz hacc hs)), if_pos hi]
      · rw [hbytes s hs i hi, if_neg (Nat.not_lt.2 hfile)]
      · have hreached : (img.patches page).any (·.reaches ((s.vaddr + i) / page.size)) = true :=
          List.any_eq_true.2 ⟨_, exists_patch hs, patch_reaches_iff.2 (.inl (inPages_place hi))⟩
        rw [pageSize_overlays, hsize, isMapped_overlays, hreached, Bool.or_true]
      · have hreached : (img.patches page).any (·.reaches p) = false := by
          rw [List.any_eq_false]
          exact not_reached h.ends hp
        rw [isMapped_overlays, hreached, Bool.or_false]
      · have hlast : Patch.lastPatch (img.patches page) p = none := by
          cases hlast : Patch.lastPatch (img.patches page) p with
          | none => rfl
          | some patch =>
            obtain ⟨hmem, hreaches⟩ := Patch.mem_of_lastPatch hlast
            exact absurd hreaches (not_reached h.ends hp patch hmem)
        rw [value_overlays, hsize, hx, hlast]
    · obtain ⟨s, hs, hholds, hplace⟩ := h.headers hex
      obtain ⟨first, hfirst⟩ : ∃ first, (img.placed page).head? = some first := by
        cases hplaced : img.placed page with
        | nil => exact absurd hs (by rw [hplaced]; exact List.not_mem_nil)
        | cons first rest => exact ⟨first, rfl⟩
      obtain ⟨a, ha, hvalue⟩ := atPhdr_eq hacc h.loadable hfirst hs hholds
      refine ⟨s, hs, hholds, a, ha, ?_⟩
      have hle := hholds.1
      rw [hvalue, hplace first hfirst]
      omega

/-- A program with one segment, a part of which is to be cleared. -/
def oneSegment : ElfImage where
  role := .main
  positionIndependent := true
  phoff := 64
  headers := [⟨6, 0, 0, 100, 200⟩]
  bytes := List.replicate 100 1

/-- Pages of 4096 bytes. -/
def smallPages : PageSize := ⟨12, by decide⟩

theorem placed_oneSegment :
    oneSegment.placed smallPages = [⟨0x3000000000, 0, 100, 200, true⟩] := rfl

theorem mappable_oneSegment : Mappable oneSegment smallPages := by
  have hsize : smallPages.size = 4096 := by decide
  refine ⟨fun s hs => ?_, fun s hs => ⟨s, hs, ?_⟩, fun s hs i hi patch hpatch => ?_,
    fun hex => hex.imp fun s hs => ⟨hs.1, hs.2, fun first hfirst => ?_⟩⟩
  · rw [placed_oneSegment, List.mem_singleton] at hs
    subst hs
    exact ⟨by rw [hsize]; decide, fun _ => ⟨rfl, by rw [hsize]; decide⟩⟩
  · rw [placed_oneSegment, List.mem_singleton] at hs
    subst hs
    rw [Placed.InPages, hsize]
    decide
  · obtain ⟨hmem, -⟩ := Patch.mem_of_lastPatch hpatch
    rw [ElfImage.patches, placed_oneSegment, List.map_singleton, List.mem_singleton] at hmem
    rw [placed_oneSegment, List.mem_singleton] at hs
    rw [hmem, hs]
    rfl
  · rw [placed_oneSegment, List.head?_cons, Option.some.injEq] at hfirst
    rw [placed_oneSegment, List.mem_singleton] at hs
    rewrite [← hfirst, hs.1, hsize]
    rfl

theorem loads_iff_oneSegment : LoadsAsKernel oneSegment smallPages := by
  refine (loads_iff fun ph hph => ?_).2 mappable_oneSegment
  rw [oneSegment, List.mem_singleton] at hph
  subst hph
  exact ⟨fun _ => rfl, by decide, by decide⟩

end NeoProot.MapSegments
