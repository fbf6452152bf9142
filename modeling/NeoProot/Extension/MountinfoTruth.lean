import NeoProot.Extension.MountinfoLines
import NeoProot.Path.GuestList

/-!
# The mount points a guest reads are those of its bindings

The copy that the guest reads is a text of records: the record of `/data` as that of `/`, the
copied records, one for every binding that is published, and one for every directory behind
a tmpfs.  The identifiers count on from above the real ones, and a binding has a record of
its own unless one of the others already has its mount point and its options.

## Main definitions

* `RealText` — a text as the kernel writes it.
* `TellsTruth` — what the copy has to say about the bindings.
* `Clear` — no other record stands for a published binding.
* `tellsTruth_iff` — the copy tells the truth exactly then.
-/

namespace NeoProot.Mountinfo
open Octal Lines

/-! ### The texts -/

/-- A text as the kernel writes it: its mount identifiers are different and positive, and
`int`s. -/
structure RealText where
  text : CStr
  records : List Record
  parsed : parse text = some records
  distinct : (records.map (·.mountId)).Nodup
  bound : ∀ r ∈ records, 0 < r.mountId ∧ r.mountId < 2 ^ 31

namespace Record

/-- The record of the mount point that the guest's root lies on. -/
def isData (r : Record) : Bool := r.mountField == str "/data"

/-- The record with the mount point `/`. -/
def asRoot (r : Record) : Record := { r with mountField := str "/" }

/-- The record is one of those that are copied. -/
def isKept (r : Record) : Bool := isKeptField r.mountField

end Record

/-- What the records of the copy have to say: their identifiers are different, every
published binding has one record, the record of `/data` is that of `/`, and the copied
records are as they were. -/
structure Truthful (real : RealText) (bindings : List Binding) (records : List Record) :
    Prop where
  distinct : (records.map (·.mountId)).Nodup
  published : ∀ b ∈ bindings, isPublished b = true → records.countP (·.describes b) = 1
  root : ∃ r, real.records.find? Record.isData = some r ∧ r.asRoot ∈ records
  kept : (real.records.filter Record.isKept).Sublist records

/-- The copy reads as records that are truthful. -/
def TellsTruth (real : RealText) (bindings : List Binding) (fake : CStr) : Prop :=
  ∃ records, parse fake = some records ∧ Truthful real bindings records

/-- The mount point and the options of a binding. -/
def mountOf (b : Binding) : CStr × Bool × Bool × Bool :=
  (b.guest, b.readonly, isNosuid b, isNodev b)

/-- A binding without options. -/
def isPlain (b : Binding) : Bool := ! b.readonly && ! isNosuid b && ! isNodev b

/-- The tmpfs bindings whose directories get a record. -/
def newTmpfs : List Binding → List Binding → List Binding
  | _, [] => []
  | seen, b :: bs =>
    if isNewTmpfs seen b then b :: newTmpfs (seen ++ [b]) bs else newTmpfs (seen ++ [b]) bs

/-- The first identifier above the real ones and those below 100000. -/
def firstId (records : List Record) : ℕ := records.foldl (fun n r => max n (r.mountId + 1)) 100000

/-- How many records are written for bindings. -/
def written (bindings : List Binding) : ℕ :=
  (bindings.filter isPublished).length + (newTmpfs [] bindings).length

/-- No record of the copy stands for a binding that is published, apart from its own, and
the identifiers do not come round to a real one. -/
structure Clear (real : RealText) (bindings : List Binding) : Prop where
  guests : ((bindings.filter isPublished).map mountOf).Nodup
  kept : ∀ r ∈ real.records, r.isKept = true →
    ∀ b ∈ bindings, isPublished b = true → r.describes b = false
  tmpfs : ∀ t ∈ bindings, t.mountKind = .tmpfs →
    ∀ b ∈ bindings, isPublished b = true → isPlain b = true → t.host ≠ b.guest
  room : ∀ r ∈ real.records, r.isKept = true ∨ real.records.find? Record.isData = some r →
    firstId real.records + written bindings ≤ 2 ^ 32 + r.mountId

/-! ### The lines of the real text -/

variable {line : CStr} {r : Record}

theorem isDataLine_of_parseLine (h : parseLine line = some r) :
    isDataLine (line ++ ['\n']) = r.isData := by
  obtain ⟨mountId, parentId, tail, hr, rfl⟩ := parseLine_eq_some_iff.1 h
  exact isDataLine_spelling hr _

theorem isKeptLine_of_parseLine (h : parseLine line = some r) :
    isKeptLine (line ++ ['\n']) = r.isKept := by
  obtain ⟨mountId, parentId, tail, hr, rfl⟩ := parseLine_eq_some_iff.1 h
  exact isKeptLine_spelling hr _

theorem strtoul_of_parseLine (h : parseLine line = some r) (hle : r.mountId < 2 ^ 31) :
    strtoul (line ++ ['\n']) = some (r.mountId, true) := by
  obtain ⟨mountId, parentId, tail, hr, rfl⟩ := parseLine_eq_some_iff.1 h
  apply strtoul_spelling hr
  rw [ulongMax]
  omega

/-- The line of `/data` is written as a line of `/`. -/
theorem rootLine_of_parseLine (h : parseLine line = some r) (hline : '\n' ∉ line) :
    ∃ root, rootLine (line ++ ['\n']) = root ++ ['\n'] ∧ '\n' ∉ root ∧
      parseLine root = some r.asRoot := by
  obtain ⟨mountId, parentId, tail, hr, rfl⟩ := parseLine_eq_some_iff.1 h
  refine ⟨_, rootLine_spelling hr _, ?_, ?_⟩
  · simp only [spelling, fields, List.mem_append, List.mem_cons, not_or] at hline ⊢
    refine ⟨hline.1, by decide, hline.2.2.1, by decide, hline.2.2.2.2.1, by decide,
      hline.2.2.2.2.2.2.1, by decide, by decide, by decide, hline.2.2.2.2.2.2.2.2.2.2⟩
  · rw [parseLine_eq_some_iff]
    exact ⟨mountId, parentId, tail,
      ⟨hr.mountId, hr.parentId, hr.device, hr.root, by simp [Record.asRoot, str], hr.tail, hr.rest⟩,
      rfl⟩

theorem rootMountId_of_parseLine (h : parseLine line = some r)
    (hbound : 0 < r.mountId ∧ r.mountId < 2 ^ 31) : rootMountId (line ++ ['\n']) = r.mountId := by
  have hle : 0 < r.mountId ∧ r.mountId ≤ uintMax := by
    rw [uintMax]
    omega
  simp only [rootMountId, strtoul_of_parseLine h hbound.2, if_pos hle]

/-! ### The identifiers -/

theorem le_firstId_foldl (records : List Record) (n : ℕ) :
    n ≤ records.foldl (fun n r => max n (r.mountId + 1)) n := by
  induction records generalizing n with
  | nil => exact le_rfl
  | cons r records ih => exact le_trans (le_max_left _ _) (ih _)

/-- The first identifier is above the real ones. -/
theorem mountId_lt_firstId {records : List Record} (h : r ∈ records) :
    r.mountId < firstId records := by
  have hfold : ∀ n, r.mountId < records.foldl (fun n r => max n (r.mountId + 1)) n := by
    induction records with
    | nil => cases h
    | cons s records ih =>
      intro n
      obtain rfl | h := List.mem_cons.1 h
      · exact lt_of_lt_of_le (Nat.lt_succ_self _)
          (le_trans (le_max_right _ _) (le_firstId_foldl records _))
      · exact ih h _
  exact hfold _

theorem firstId_le {records : List Record} (h : ∀ r ∈ records, r.mountId < 2 ^ 31) :
    firstId records ≤ 2 ^ 31 := by
  have hfold : ∀ n ≤ 2 ^ 31, records.foldl (fun n r => max n (r.mountId + 1)) n ≤ 2 ^ 31 := by
    induction records with
    | nil => exact fun n hn => hn
    | cons r records ih =>
      intro n hn
      apply ih fun s hs => h s (List.mem_cons_of_mem r hs)
      exact max_le hn (h r List.mem_cons_self)
  exact hfold _ (by decide)

/-- The third loop finds the first identifier. -/
theorem firstMountId_eq {ps : List (CStr × Record)}
    (hps : ∀ p ∈ ps, parseLine p.1 = some p.2 ∧ p.2.mountId < 2 ^ 31) :
    firstMountId (ps.map fun p => p.1 ++ ['\n']) = firstId (ps.map Prod.snd) := by
  rw [firstMountId, firstId, List.foldl_map, List.foldl_map]
  generalize 100000 = n
  induction ps generalizing n with
  | nil => rfl
  | cons p ps ih =>
    obtain ⟨hread, hlt⟩ := hps p List.mem_cons_self
    have hstep : (if p.2.mountId < uintMax ∧ n ≤ p.2.mountId then p.2.mountId + 1 else n) =
        max n (p.2.mountId + 1) := by
      have huint : p.2.mountId < uintMax := by
        rw [uintMax]
        omega
      split_ifs with h
      · omega
      · omega
    simp only [List.foldl_cons, strtoul_of_parseLine hread hlt, hstep]
    exact ih (fun q hq => hps q (List.mem_cons_of_mem p hq)) _

/-! ### The records of the copy -/

/-- A line with the record that it reads as. -/
def bindingPair (rootId : ℕ) (x : Binding × ℕ) : CStr × Record :=
  (spelling (printUnsigned (x.2 % 2 ^ 32)) (printUnsigned rootId)
    (bindingOptions x.1.readonly (isNosuid x.1) (isNodev x.1) ++ str " - none none rw")
    (bindingRecord rootId (x.2 % 2 ^ 32) x.1), bindingRecord rootId (x.2 % 2 ^ 32) x.1)

def tmpfsPair (rootId : ℕ) (x : Binding × ℕ) : CStr × Record :=
  (spelling (printUnsigned (x.2 % 2 ^ 32)) (printUnsigned rootId) (str "rw - tmpfs tmpfs rw")
    (tmpfsRecord rootId (x.2 % 2 ^ 32) x.1), tmpfsRecord rootId (x.2 % 2 ^ 32) x.1)

theorem newline_notMem_printUnsigned (n : ℕ) : '\n' ∉ printUnsigned n := by
  intro hmem
  have hdigit := Nat.isDigit_of_mem_toDigits (by decide) (by decide) hmem
  revert hdigit
  decide

theorem bindingPair_read (rootId : ℕ) (x : Binding × ℕ) :
    '\n' ∉ (bindingPair rootId x).1 ∧
      parseLine (bindingPair rootId x).1 = some (bindingPair rootId x).2 := by
  constructor
  · have hoptions : '\n' ∉ bindingOptions x.1.readonly (isNosuid x.1) (isNodev x.1) ++
        str " - none none rw" := by
      cases x.1.readonly <;> cases isNosuid x.1 <;> cases isNodev x.1 <;> decide
    simp only [bindingPair, spelling, fields, bindingRecord, List.mem_append, List.mem_cons, not_or]
      at hoptions ⊢
    exact ⟨newline_notMem_printUnsigned _, by decide, newline_notMem_printUnsigned _, by decide,
      by decide, by decide, by decide, by decide, newline_notMem_writeMountinfoPath _, by decide,
      hoptions⟩
  · exact parseLine_eq_some_iff.2 ⟨_, _, _, spelled_bindingRecord _ _ _, rfl⟩

theorem tmpfsPair_read (rootId : ℕ) (x : Binding × ℕ) :
    '\n' ∉ (tmpfsPair rootId x).1 ∧
      parseLine (tmpfsPair rootId x).1 = some (tmpfsPair rootId x).2 := by
  constructor
  · simp only [tmpfsPair, spelling, fields, tmpfsRecord, List.mem_append, List.mem_cons, not_or]
    exact ⟨newline_notMem_printUnsigned _, by decide, newline_notMem_printUnsigned _, by decide,
      by decide, by decide, by decide, by decide, newline_notMem_writeMountinfoPath _, by decide,
      by decide⟩
  · exact parseLine_eq_some_iff.2 ⟨_, _, _, spelled_tmpfsRecord _ _ _, rfl⟩

theorem nextId_mod (n : ℕ) : nextId (n % 2 ^ 32) = (n + 1) % 2 ^ 32 := by
  rw [nextId]
  omega

/-- The loop over the bindings writes a line for each that is published. -/
theorem bindingLines_eq (rootId n : ℕ) (bs : List Binding) :
    bindingLines rootId (n % 2 ^ 32) bs =
      (unlines '\n' ((((bs.filter isPublished).zipIdx n).map (bindingPair rootId)).map Prod.fst),
        (n + (bs.filter isPublished).length) % 2 ^ 32) := by
  induction bs generalizing n with
  | nil => rfl
  | cons b bs ih =>
    rw [bindingLines]
    by_cases hb : isPublished b = true
    · rw [if_pos hb, nextId_mod, ih, bindingLine_eq, List.filter_cons_of_pos hb, List.zipIdx_cons,
        List.map_cons, List.map_cons, unlines_cons, List.length_cons]
      simp [bindingPair, Nat.add_assoc, Nat.add_comm 1]
    · rw [if_neg hb, ih, List.filter_cons_of_neg hb]

/-- The loop over the tmpfs bindings writes a line for each directory. -/
theorem tmpfsLines_eq (rootId n : ℕ) (seen bs : List Binding) :
    tmpfsLines rootId (n % 2 ^ 32) seen bs =
      unlines '\n' ((((newTmpfs seen bs).zipIdx n).map (tmpfsPair rootId)).map Prod.fst) := by
  induction bs generalizing n seen with
  | nil => rfl
  | cons b bs ih =>
    rw [tmpfsLines, newTmpfs]
    by_cases hb : isNewTmpfs seen b = true
    · rw [if_pos hb, if_pos hb, nextId_mod, ih, tmpfsLine_eq, List.zipIdx_cons, List.map_cons,
        List.map_cons, unlines_cons]
      simp [tmpfsPair]
    · rw [if_neg hb, if_neg hb, ih]

/-- The records that are written for the bindings. -/
def bindingRecords (rootId firstId : ℕ) (bindings : List Binding) : List Record :=
  ((bindings.filter isPublished).zipIdx firstId).map
      (fun x => bindingRecord rootId (x.2 % 2 ^ 32) x.1) ++
    ((newTmpfs [] bindings).zipIdx (firstId + (bindings.filter isPublished).length)).map
      (fun x => tmpfsRecord rootId (x.2 % 2 ^ 32) x.1)

/-- The copy reads as the records of the real text that are shown and those written for the
bindings. -/
theorem parse_fakeMountinfo {real : RealText} {bindings : List Binding} {fake : CStr}
    (h : fakeMountinfo real.text bindings = some fake) :
    ∃ r, real.records.find? Record.isData = some r ∧
      parse fake = some (r.asRoot :: (real.records.filter Record.isKept ++
        bindingRecords r.mountId (firstId real.records) bindings)) := by
  obtain ⟨ps, htext, hsnd, hps⟩ := readLines_eq_some_iff.1 real.parsed
  have hlines : getlines real.text = ps.map fun p => p.1 ++ ['\n'] := by
    rw [htext, getlines_unlines, List.map_map]
    · rfl
    · intro line hline
      obtain ⟨p, hp, rfl⟩ := List.mem_map.1 hline
      exact (hps p hp).1
  have hread : ∀ p ∈ ps, parseLine p.1 = some p.2 ∧ 0 < p.2.mountId ∧ p.2.mountId < 2 ^ 31 := by
    intro p hp
    exact ⟨(hps p hp).2, real.bound p.2 (hsnd ▸ List.mem_map_of_mem hp)⟩
  have hkept : (getlines real.text).filter isKeptLine =
      (ps.filter fun p => p.2.isKept).map fun p => p.1 ++ ['\n'] := by
    rw [hlines, List.filter_map]
    congr 1
    apply List.filter_congr
    exact fun p hp => isKeptLine_of_parseLine (hread p hp).1
  have hdata : (getlines real.text).find? isDataLine =
      (ps.find? fun p => p.2.isData).map fun p => p.1 ++ ['\n'] := by
    rw [hlines, ← List.head?_filter, ← List.head?_filter, List.filter_map, List.head?_map]
    congr 2
    apply List.filter_congr
    exact fun p hp => isDataLine_of_parseLine (hread p hp).1
  have hfirst : firstMountId (getlines real.text) = firstId real.records % 2 ^ 32 := by
    have hle := firstId_le fun r hr => (real.bound r hr).2
    rw [hlines, firstMountId_eq fun p hp => ⟨(hread p hp).1, (hread p hp).2.2⟩, hsnd]
    omega
  simp only [fakeMountinfo, hdata, hkept, hfirst] at h
  cases hfind : ps.find? fun p => p.2.isData with
  | none =>
    rw [hfind] at h
    cases h
  | some p =>
    have hmem := List.mem_of_find?_eq_some hfind
    obtain ⟨hline, hid⟩ := hread p hmem
    obtain ⟨root, hroot, hnewline, hrootRead⟩ := rootLine_of_parseLine hline (hps p hmem).1
    have hdataRecord : real.records.find? Record.isData = some p.2 := by
      rw [← hsnd, List.find?_map, Function.comp_def, hfind]
      rfl
    rw [hfind] at h
    simp only [Option.map_some, rootMountId_of_parseLine hline hid, if_neg hid.1.ne', hroot,
      bindingLines_eq, tmpfsLines_eq, Option.some.injEq] at h
    refine ⟨p.2, hdataRecord, ?_⟩
    apply readLines_eq_some_iff.2
    refine ⟨(root, p.2.asRoot) :: ((ps.filter fun p => p.2.isKept) ++
      (((bindings.filter isPublished).zipIdx (firstId real.records)).map
        (bindingPair p.2.mountId) ++
      ((newTmpfs [] bindings).zipIdx
        (firstId real.records + (bindings.filter isPublished).length)).map
          (tmpfsPair p.2.mountId))), ?_, ?_, ?_⟩
    · rw [← h]
      simp [unlines, List.flatMap_map, List.flatten_eq_flatMap]
    · rw [← hsnd]
      simp [bindingRecords, bindingPair, tmpfsPair, List.filter_map, Function.comp_def]
    · intro q hq
      simp only [List.mem_cons, List.mem_append, List.mem_map] at hq
      obtain rfl | hq | ⟨x, -, rfl⟩ | ⟨x, -, rfl⟩ := hq
      · exact ⟨hnewline, hrootRead⟩
      · exact hps q (List.mem_filter.1 hq).1
      · exact bindingPair_read _ x
      · exact tmpfsPair_read _ x

/-! ### The records that stand for a binding -/

theorem describes_iff {b : Binding} :
    r.describes b = true ↔ r.mountPoint = b.guest ∧ r.hasOption (str "ro") = b.readonly ∧
      r.hasOption (str "nosuid") = isNosuid b ∧ r.hasOption (str "nodev") = isNodev b := by
  simp only [Record.describes, Bool.and_eq_true, beq_iff_eq, and_assoc]

theorem hasOption_bindingOptions {readonly nosuid nodev : Bool}
    (h : r.options = bindingOptions readonly nosuid nodev) :
    r.hasOption (str "ro") = readonly ∧ r.hasOption (str "nosuid") = nosuid ∧
      r.hasOption (str "nodev") = nodev := by
  simp only [Record.hasOption, h]
  clear h
  revert readonly nosuid nodev
  decide

/-- The record of a binding stands for the bindings with its mount point and options. -/
theorem describes_bindingRecord (rootId n : ℕ) (b' b : Binding) :
    (bindingRecord rootId n b').describes b = true ↔ mountOf b' = mountOf b := by
  obtain ⟨hro, hnosuid, hnodev⟩ := hasOption_bindingOptions (r := bindingRecord rootId n b') rfl
  rw [describes_iff, hro, hnosuid, hnodev, Record.mountPoint]
  simp only [bindingRecord, unescape_writeMountinfoPath, mountOf, Prod.mk.injEq]

/-- The record of a directory behind a tmpfs stands for a binding to its path. -/
theorem describes_tmpfsRecord (rootId n : ℕ) (t b : Binding) :
    (tmpfsRecord rootId n t).describes b = true ↔ t.host = b.guest ∧ isPlain b = true := by
  obtain ⟨hro, hnosuid, hnodev⟩ :=
    @hasOption_bindingOptions (tmpfsRecord rootId n t) false false false rfl
  rw [describes_iff, hro, hnosuid, hnodev, Record.mountPoint]
  simp only [tmpfsRecord, unescape_writeMountinfoPath, isPlain, Bool.and_eq_true,
    Bool.not_eq_true', and_assoc, eq_comm (a := false)]

/-- The record of `/` stands for no published binding. -/
theorem describes_asRoot {b : Binding} (hb : isPublished b = true) (r : Record) :
    r.asRoot.describes b = false := by
  rw [Bool.eq_false_iff]
  intro h
  have hguest : b.guest = str "/" := (describes_iff.1 h).1.symm
  rw [isPublished, hguest] at hb
  revert hb
  simp [isReserved]

/-- The other records that are written for bindings, apart from its own, are those with its
mount point and options and those of directories behind a tmpfs. -/
theorem countP_bindingRecords (rootId n : ℕ) (bindings : List Binding) (b : Binding) :
    (bindingRecords rootId n bindings).countP (·.describes b) =
      ((bindings.filter isPublished).map mountOf).count (mountOf b) +
        (newTmpfs [] bindings).countP fun t => t.host == b.guest && isPlain b := by
  have hbinding : (fun x : Binding × ℕ =>
      (bindingRecord rootId (x.2 % 2 ^ 32) x.1).describes b) =
        (fun b' => mountOf b' == mountOf b) ∘ Prod.fst := by
    funext x
    rw [Bool.eq_iff_iff, describes_bindingRecord]
    simp
  have htmpfs : (fun x : Binding × ℕ => (tmpfsRecord rootId (x.2 % 2 ^ 32) x.1).describes b) =
      (fun t => t.host == b.guest && isPlain b) ∘ Prod.fst := by
    funext x
    rw [Bool.eq_iff_iff, describes_tmpfsRecord]
    simp
  rw [bindingRecords, List.countP_append, List.countP_map, List.countP_map, Function.comp_def,
    Function.comp_def, hbinding, htmpfs, ← List.countP_map, ← List.countP_map,
    List.zipIdx_map_fst, List.zipIdx_map_fst, List.count, List.countP_map]
  rfl

theorem mem_newTmpfs {seen bs : List Binding} {t : Binding} (h : t ∈ newTmpfs seen bs) :
    t ∈ bs ∧ t.mountKind = .tmpfs := by
  induction bs generalizing seen with
  | nil => cases h
  | cons b bs ih =>
    rw [newTmpfs] at h
    split_ifs at h with hb
    · obtain rfl | h := List.mem_cons.1 h
      · simp only [isNewTmpfs, Bool.and_eq_true, decide_eq_true_eq] at hb
        exact ⟨List.mem_cons_self, hb.1⟩
      · exact ⟨List.mem_cons_of_mem b (ih h).1, (ih h).2⟩
    · exact ⟨List.mem_cons_of_mem b (ih h).1, (ih h).2⟩

theorem isNewTmpfs_or {seen : List Binding} {b : Binding} (hb : b.mountKind = .tmpfs) :
    (∃ s ∈ seen, s.mountKind = .tmpfs ∧ s.host = b.host) ∨ isNewTmpfs seen b = true := by
  by_cases hseen : ∃ s ∈ seen, s.mountKind = .tmpfs ∧ s.host = b.host
  · exact .inl hseen
  · right
    simpa [isNewTmpfs, hb] using hseen

/-- The directory behind a tmpfs has a record, unless one was seen before. -/
theorem exists_newTmpfs {seen bs : List Binding} {t : Binding} (h : t ∈ bs)
    (htmpfs : t.mountKind = .tmpfs) :
    (∃ s ∈ seen, s.mountKind = .tmpfs ∧ s.host = t.host) ∨
      ∃ s ∈ newTmpfs seen bs, s.host = t.host := by
  induction bs generalizing seen with
  | nil => cases h
  | cons b bs ih =>
    have hhead : b.mountKind = .tmpfs → b.host = t.host →
        (∃ s ∈ seen, s.mountKind = .tmpfs ∧ s.host = t.host) ∨
          ∃ s ∈ newTmpfs seen (b :: bs), s.host = t.host := by
      intro hb hhost
      obtain hseen | hnew := @isNewTmpfs_or seen b hb
      · exact .inl (hhost ▸ hseen)
      · right
        rw [newTmpfs, if_pos hnew]
        exact ⟨b, List.mem_cons_self, hhost⟩
    obtain rfl | h := List.mem_cons.1 h
    · exact hhead htmpfs rfl
    · obtain ⟨s, hs, hstmpfs, hhost⟩ | ⟨s, hs, hhost⟩ := @ih (seen ++ [b]) h
      · obtain hs | hs := List.mem_append.1 hs
        · exact .inl ⟨s, hs, hstmpfs, hhost⟩
        · rw [List.mem_singleton] at hs
          exact hhead (hs ▸ hstmpfs) (hs ▸ hhost)
      · right
        rw [newTmpfs]
        split_ifs
        · exact ⟨s, List.mem_cons_of_mem b hs, hhost⟩
        · exact ⟨s, hs, hhost⟩

/-! ### The identifiers of the copy -/

/-- Counting on from above different numbers, modulo `2 ^ 32`, meets none of them exactly
until it comes round to one. -/
theorem nodup_append_count {ids : List ℕ} {n k : ℕ} (hids : ids.Nodup) (hne : ids ≠ [])
    (hlt : ∀ i ∈ ids, i < n) (hn : n ≤ 2 ^ 31) :
    (ids ++ (List.range' n k).map (· % 2 ^ 32)).Nodup ↔ ∀ i ∈ ids, n + k ≤ 2 ^ 32 + i := by
  rw [List.nodup_append]
  constructor
  · intro h i hi
    by_contra hgt
    have hmem : i ∈ (List.range' n k).map (· % 2 ^ 32) := by
      have hi' := hlt i hi
      refine List.mem_map.2 ⟨2 ^ 32 + i, ?_, by omega⟩
      rw [List.mem_range'_1]
      omega
    exact h.2.2 i hi i hmem rfl
  · intro hroom
    have hcount : ∀ m ∈ List.range' n k, n ≤ m ∧ m < n + k := by
      intro m hm
      exact List.mem_range'_1.1 hm
    refine ⟨hids, ?_, ?_⟩
    · obtain ⟨i, hi⟩ := List.exists_mem_of_ne_nil ids hne
      have hi' := hlt i hi
      have hroom' := hroom i hi
      refine List.Nodup.map_on ?_ List.nodup_range'
      intro x hx y hy hxy
      have hx' := hcount x hx
      have hy' := hcount y hy
      omega
    · intro i hi m hm heq
      obtain ⟨x, hx, rfl⟩ := List.mem_map.1 hm
      have hx' := hcount x hx
      have hi' := hlt i hi
      have hroom' := hroom i hi
      omega

/-- The identifiers of the copy. -/
theorem map_mountId_bindingRecords (rootId n : ℕ) (bindings : List Binding) :
    (bindingRecords rootId n bindings).map (·.mountId) =
      (List.range' n (written bindings)).map (· % 2 ^ 32) := by
  have hsnd : ∀ (bs : List Binding) n, (bs.zipIdx n).map (fun x => x.2 % 2 ^ 32) =
      (List.range' n bs.length).map (· % 2 ^ 32) := by
    intro bs n
    rw [← List.zipIdx_map_snd, List.map_map]
    rfl
  rw [bindingRecords, List.map_append, List.map_map, List.map_map, written,
    ← List.range'_append_1, List.map_append, ← hsnd, ← hsnd]
  rfl

/-! ### The truth -/

/-- The records of the copy. -/
def copied (real : RealText) (bindings : List Binding) (r : Record) : List Record :=
  r.asRoot :: (real.records.filter Record.isKept ++
    bindingRecords r.mountId (firstId real.records) bindings)

/-- A published binding has one record when no other binding, no copied record and no
directory behind a tmpfs has its mount point and options. -/
theorem countP_copied (real : RealText) {bindings : List Binding} (r : Record) {b : Binding}
    (hb : b ∈ bindings) (hpublished : isPublished b = true) :
    (copied real bindings r).countP (·.describes b) = 1 ↔
      ((bindings.filter isPublished).map mountOf).count (mountOf b) = 1 ∧
        (∀ s ∈ real.records, s.isKept = true → s.describes b = false) ∧
          ∀ t ∈ bindings, t.mountKind = .tmpfs → isPlain b = true → t.host ≠ b.guest := by
  have hown : 0 < ((bindings.filter isPublished).map mountOf).count (mountOf b) :=
    List.count_pos_iff.2 (List.mem_map_of_mem (List.mem_filter.2 ⟨hb, hpublished⟩))
  have hkept : (real.records.filter Record.isKept).countP (·.describes b) = 0 ↔
      ∀ s ∈ real.records, s.isKept = true → s.describes b = false := by
    simp only [List.countP_eq_zero, List.mem_filter, and_imp, Bool.not_eq_true]
  have htmpfs : ((newTmpfs [] bindings).countP fun t => t.host == b.guest && isPlain b) = 0 ↔
      ∀ t ∈ bindings, t.mountKind = .tmpfs → isPlain b = true → t.host ≠ b.guest := by
    simp only [List.countP_eq_zero, Bool.and_eq_true, beq_iff_eq, not_and]
    constructor
    · intro h t ht hkind hplain hhost
      obtain ⟨s, hs, -⟩ | ⟨s, hs, hsame⟩ := @exists_newTmpfs [] bindings t ht hkind
      · cases hs
      · exact h s hs (hsame.trans hhost) hplain
    · intro h t ht hhost hplain
      obtain ⟨hmem, hkind⟩ := mem_newTmpfs ht
      exact h t hmem hkind hplain hhost
  rw [copied, List.countP_cons, describes_asRoot hpublished, List.countP_append,
    countP_bindingRecords, ← hkept, ← htmpfs, if_neg Bool.false_ne_true]
  omega

/-- The identifiers are different when they do not come round to a real one. -/
theorem nodup_copied (real : RealText) (bindings : List Binding) {r : Record}
    (hdata : real.records.find? Record.isData = some r) :
    ((copied real bindings r).map (·.mountId)).Nodup ↔
      ∀ s ∈ real.records, s.isKept = true ∨ real.records.find? Record.isData = some s →
        firstId real.records + written bindings ≤ 2 ^ 32 + s.mountId := by
  have hmem : r ∈ real.records := List.mem_of_find?_eq_some hdata
  have hnot : r.isKept = false := by
    have hfield : r.mountField = str "/data" := by
      simpa [Record.isData] using List.find?_some hdata
    rw [Record.isKept, hfield]
    decide
  have hids : (r.mountId :: (real.records.filter Record.isKept).map (·.mountId)).Nodup := by
    rw [List.nodup_cons]
    constructor
    · intro hid
      obtain ⟨s, hs, hsame⟩ := List.mem_map.1 hid
      obtain ⟨hs, hkept⟩ := List.mem_filter.1 hs
      rw [List.inj_on_of_nodup_map real.distinct hs hmem hsame, hnot] at hkept
      cases hkept
    · exact real.distinct.sublist (List.filter_sublist.map _)
  have hlt : ∀ i ∈ r.mountId :: (real.records.filter Record.isKept).map (·.mountId),
      i < firstId real.records := by
    intro i hi
    simp only [List.mem_cons, List.mem_map, List.mem_filter] at hi
    obtain rfl | ⟨s, ⟨hs, -⟩, rfl⟩ := hi
    · exact mountId_lt_firstId hmem
    · exact mountId_lt_firstId hs
  have hle : firstId real.records ≤ 2 ^ 31 := firstId_le fun s hs => (real.bound s hs).2
  have hsplit : (copied real bindings r).map (·.mountId) =
      (r.mountId :: (real.records.filter Record.isKept).map (·.mountId)) ++
        (List.range' (firstId real.records) (written bindings)).map (· % 2 ^ 32) := by
    rw [copied, List.map_cons, List.map_append, map_mountId_bindingRecords]
    rfl
  rw [hsplit, nodup_append_count hids (List.cons_ne_nil _ _) hlt hle]
  simp only [List.forall_mem_cons, List.forall_mem_map, List.mem_filter, hdata, Option.some.injEq]
  constructor
  · intro h s hs hcase
    obtain hcase | rfl := hcase
    · exact h.2 s ⟨hs, hcase⟩
    · exact h.1
  · intro hroom
    exact ⟨hroom r hmem (.inr rfl), fun s hs => hroom s hs.1 (.inl hs.2)⟩

/-- The copy tells the truth about the bindings exactly when no other record stands for one
of them and its identifiers do not come round. -/
theorem tellsTruth_iff (real : RealText) (bindings : List Binding) {fake : CStr}
    (h : fakeMountinfo real.text bindings = some fake) :
    TellsTruth real bindings fake ↔ Clear real bindings := by
  obtain ⟨r, hdata, hparse⟩ := parse_fakeMountinfo h
  have hcount := fun b hb hpublished => @countP_copied real bindings r b hb hpublished
  constructor
  · intro ⟨records, hrecords, htruth⟩
    have heq : records = copied real bindings r := Option.some.inj (hrecords.symm.trans hparse)
    rw [heq] at htruth
    refine ⟨?_, ?_, ?_, (nodup_copied real bindings hdata).1 htruth.distinct⟩
    · rw [List.nodup_iff_count_eq_one]
      intro mount hmount
      obtain ⟨b, hb, rfl⟩ := List.mem_map.1 hmount
      obtain ⟨hb, hpublished⟩ := List.mem_filter.1 hb
      exact ((hcount b hb hpublished).1 (htruth.published b hb hpublished)).1
    · intro s hs hkept b hb hpublished
      exact ((hcount b hb hpublished).1 (htruth.published b hb hpublished)).2.1 s hs hkept
    · intro t ht hkind b hb hpublished
      exact ((hcount b hb hpublished).1 (htruth.published b hb hpublished)).2.2 t ht hkind
  · intro hclear
    refine ⟨copied real bindings r, hparse, ?_, ?_, ?_, ?_⟩
    · exact (nodup_copied real bindings hdata).2 hclear.room
    · intro b hb hpublished
      apply (hcount b hb hpublished).2
      refine ⟨?_, fun s hs hkept => hclear.kept s hs hkept b hb hpublished,
        fun t ht hkind => hclear.tmpfs t ht hkind b hb hpublished⟩
      apply List.nodup_iff_count_eq_one.1 hclear.guests
      exact List.mem_map_of_mem (List.mem_filter.2 ⟨hb, hpublished⟩)
    · exact ⟨r, hdata, List.mem_cons_self⟩
    · rw [copied, ← List.singleton_append, ← List.append_assoc]
      exact (List.sublist_append_right _ _).trans (List.sublist_append_left _ _)

/-- A mountinfo whose `/data` is shown next to its `/dev/pts`. -/
def phone : RealText where
  text := str "22 21 0:5 / /dev/pts rw,relatime - devpts devpts rw\n" ++
    str "41 21 8:1 / /data rw - f2fs a rw\n"
  records := [
    ⟨22, 21, str "0:5", str "/", str "/dev/pts", str "rw,relatime",
      [str "-", str "devpts", str "devpts", str "rw"]⟩,
    ⟨41, 21, str "8:1", str "/", str "/data", str "rw", [str "-", str "f2fs", str "a", str "rw"]⟩]
  parsed := by decide +kernel
  distinct := by decide
  bound := by decide

/-- A binding without options. -/
def plainBinding (host guest : CStr) : Binding where
  addr := 0
  host := host
  guest := guest
  readonly := false
  sourceReadonly := false
  needSubstitution := true
  mountFlags := 0
  sourceMountFlags := 0
  mountKind := .none
  covered := []

/-- What is written for a binding to a path with a space. -/
def phoneCopy : CStr :=
  str "41 21 8:1 / / rw - f2fs a rw\n22 21 0:5 / /dev/pts rw,relatime - devpts devpts rw\n" ++
    str "100000 41 0:1 / /a\\040b rw - none none rw\n"

theorem tellsTruth_iff_phone :
    TellsTruth phone [plainBinding (str "/data/x") (str "/a b")] phoneCopy ↔
      Clear phone [plainBinding (str "/data/x") (str "/a b")] :=
  tellsTruth_iff phone _ (by decide +kernel)

/-- A binding over `/dev/pts`. -/
def ptsBinding : Binding := plainBinding (str "/data/pts") (str "/dev/pts")

/-- What is written for it: the record of the real `/dev/pts`, and one of its own. -/
def ptsCopy : CStr :=
  str "41 21 8:1 / / rw - f2fs a rw\n22 21 0:5 / /dev/pts rw,relatime - devpts devpts rw\n" ++
    str "100000 41 0:1 / /dev/pts rw - none none rw\n"

theorem pts_shown_twice :
    fakeMountinfo phone.text [ptsBinding] = some ptsCopy ∧
      ¬ TellsTruth phone [ptsBinding] ptsCopy := by
  constructor
  · decide +kernel
  · intro ⟨records, hparse, htruth⟩
    have hone : records.countP (·.describes ptsBinding) = 1 :=
      htruth.published ptsBinding List.mem_cons_self (by decide)
    have htwo : (parse ptsCopy).map (·.countP (·.describes ptsBinding)) = some 2 := by
      decide +kernel
    rw [hparse, Option.map_some, hone] at htwo
    cases htwo

end NeoProot.Mountinfo
