import NeoProot.Extension.Mountinfo

/-!
# The lines of the mount points

What the loops see in a line is what a reader finds in its record: the fifth field is the
mount point as it stands there, and the number at the front is its identifier.  The lines
that the loops write read back as the records of the bindings.

## Main definitions

* `spelling` — the line of a record, from the spellings of its numbers and its end.
* `bindingRecord`, `tmpfsRecord` — what a reader finds in the lines of a binding.
-/

namespace NeoProot.Mountinfo
open Octal Lines

variable {field mountId parentId tail : CStr} {r : Record}

/-! ### The fields of a line -/

/-- A line of five fields and more. -/
def fields (mountId parentId device root mountField tail : CStr) : CStr :=
  mountId ++ ' ' :: (parentId ++ ' ' :: (device ++ ' ' :: (root ++ ' ' ::
    (mountField ++ ' ' :: tail))))

/-- The line of a record. -/
def spelling (mountId parentId tail : CStr) (r : Record) : CStr :=
  fields mountId parentId r.device r.root r.mountField tail

/-- The two numbers and the end of a line spell those of a record. -/
structure Spelled (mountId parentId tail : CStr) (r : Record) : Prop where
  mountId : readNumber mountId = some r.mountId
  parentId : readNumber parentId = some r.parentId
  device : ' ' ∉ r.device
  root : ' ' ∉ r.root
  mountField : ' ' ∉ r.mountField
  tail : tail.splitOn ' ' = r.options :: r.rest
  rest : (r.rest.dropWhile (· ≠ ['-'])).length = 4

theorem readNumber_eq_some_iff {n : ℕ} :
    readNumber field = some n ↔
      field ≠ [] ∧ (∀ c ∈ field, c.isDigit = true) ∧ decimalValue field = n := by
  simp only [readNumber, Option.ite_none_right_eq_some, List.all_eq_true, Option.some.injEq,
    and_assoc]

theorem space_notMem_of_readNumber {n : ℕ} (h : readNumber field = some n) : ' ' ∉ field := by
  intro hmem
  have hdigit := (readNumber_eq_some_iff.1 h).2.1 ' ' hmem
  revert hdigit
  decide

theorem splitOn_fields {device root mountField : CStr} (hid : ' ' ∉ mountId)
    (hparent : ' ' ∉ parentId) (hdevice : ' ' ∉ device) (hroot : ' ' ∉ root)
    (hfield : ' ' ∉ mountField) :
    (fields mountId parentId device root mountField tail).splitOn ' ' =
      mountId :: parentId :: device :: root :: mountField :: tail.splitOn ' ' := by
  rw [fields, List.splitOn_append_cons_self_of_not_mem hid,
    List.splitOn_append_cons_self_of_not_mem hparent,
    List.splitOn_append_cons_self_of_not_mem hdevice,
    List.splitOn_append_cons_self_of_not_mem hroot,
    List.splitOn_append_cons_self_of_not_mem hfield]

/-- A line that is read is the spelling of its record. -/
theorem parseLine_eq_some_iff {line : CStr} :
    parseLine line = some r ↔
      ∃ mountId parentId tail, Spelled mountId parentId tail r ∧
        line = spelling mountId parentId tail r := by
  constructor
  · intro h
    unfold parseLine at h
    split at h
    · rename_i mountId parentId device root mountField options rest hsplit
      have hfree : ∀ field ∈ line.splitOn ' ', ' ' ∉ field :=
        fun field hmem => not_mem_of_mem_splitOn hmem
      rw [hsplit] at hfree
      split at h
      · rename_i hrest
        split at h
        · rename_i n m hn hm
          rw [Option.some.injEq] at h
          subst h
          refine ⟨mountId, parentId, [' '].intercalate (options :: rest), ?_, ?_⟩
          · refine ⟨hn, hm, hfree _ (by simp), hfree _ (by simp), hfree _ (by simp), ?_, hrest⟩
            apply List.splitOn_intercalate
            · intro field hmem
              obtain rfl | hmem := List.mem_cons.1 hmem
              · exact hfree _ (by simp)
              · exact hfree _ (by simp [hmem])
            · exact List.cons_ne_nil _ _
          · have hjoined : [' '].intercalate (line.splitOn ' ') = line :=
              List.intercalate_splitOn ' '
            rw [← hjoined, hsplit]
            simp [spelling, fields, List.intercalate_cons_cons]
        · cases h
      · cases h
    · cases h
  · intro ⟨mountId, parentId, tail, hr, hline⟩
    rw [hline, spelling, parseLine, splitOn_fields (space_notMem_of_readNumber hr.mountId)
      (space_notMem_of_readNumber hr.parentId) hr.device hr.root hr.mountField, hr.tail]
    simp only [hr.rest, if_true, hr.mountId, hr.parentId]

/-! ### What the loops see -/

theorem behindSpace_append (h : ' ' ∉ field) (s : CStr) :
    behindSpace (field ++ ' ' :: s) = some s := by
  have hdrop : (field ++ ' ' :: s).dropWhile (· ≠ ' ') = ' ' :: s := by
    rw [List.dropWhile_append_of_pos]
    · simp
    · intro c hc
      simpa using fun heq : c = ' ' => h (heq ▸ hc)
  rw [behindSpace, hdrop]

theorem fifthField_spelling (hr : Spelled mountId parentId tail r) (s : CStr) :
    fifthField (spelling mountId parentId tail r ++ s) =
      some (r.mountField ++ ' ' :: (tail ++ s), ' ' :: (tail ++ s)) := by
  have hid := space_notMem_of_readNumber hr.mountId
  have hparent := space_notMem_of_readNumber hr.parentId
  have hdrop : (r.mountField ++ ' ' :: (tail ++ s)).dropWhile (· ≠ ' ') = ' ' :: (tail ++ s) := by
    rw [List.dropWhile_append_of_pos]
    · simp
    · intro c hc
      simpa using fun heq : c = ' ' => hr.mountField (heq ▸ hc)
  simp only [fifthField, spelling, fields, List.append_assoc, List.cons_append,
    behindSpace_append hid, behindSpace_append hparent, behindSpace_append hr.device,
    behindSpace_append hr.root, Option.bind_eq_bind, Option.bind_some, hdrop]

@[simp] theorem between_append (field s : CStr) : between (field ++ s, s) = field := by
  simp [between]

theorem isDataLine_spelling (hr : Spelled mountId parentId tail r) (s : CStr) :
    isDataLine (spelling mountId parentId tail r ++ s) = (r.mountField == str "/data") := by
  simp only [isDataLine, fifthField_spelling hr, between_append]

theorem isKeptLine_spelling (hr : Spelled mountId parentId tail r) (s : CStr) :
    isKeptLine (spelling mountId parentId tail r ++ s) = isKeptField r.mountField := by
  simp only [isKeptLine, fifthField_spelling hr, between_append]

/-- The line of `/data` gets the mount point `/` and stays as it is otherwise. -/
theorem rootLine_spelling (hr : Spelled mountId parentId tail r) (s : CStr) :
    rootLine (spelling mountId parentId tail r ++ s) =
      spelling mountId parentId tail { r with mountField := str "/" } ++ s := by
  obtain ⟨front, hfront⟩ : ∃ front, front =
      mountId ++ ' ' :: (parentId ++ ' ' :: (r.device ++ ' ' :: (r.root ++ [' ']))) := ⟨_, rfl⟩
  have hsplit : spelling mountId parentId tail r ++ s =
      front ++ (r.mountField ++ ' ' :: (tail ++ s)) := by
    simp [spelling, fields, hfront]
  rw [rootLine, fifthField_spelling hr, hsplit]
  simp only [@List.length_append _ front, Nat.add_sub_cancel, List.take_left']
  simp [spelling, fields, str, hfront]

/-- What `getline` returns for a text of lines. -/
theorem getlines_line {line : CStr} (h : '\n' ∉ line) (text : CStr) :
    getlines (line ++ '\n' :: text) = (line ++ ['\n']) :: getlines text := by
  induction line with
  | nil => rfl
  | cons c line ih =>
    rw [List.mem_cons, not_or] at h
    rw [List.cons_append, getlines, if_neg (Ne.symm h.1), ih h.2]
    rfl

theorem getlines_unlines {ls : List CStr} (h : ∀ line ∈ ls, '\n' ∉ line) :
    getlines (unlines '\n' ls) = ls.map (· ++ ['\n']) := by
  induction ls with
  | nil => rfl
  | cons line ls ih =>
    rw [unlines_cons, getlines_line (h line List.mem_cons_self),
      ih fun l hl => h l (List.mem_cons_of_mem line hl), List.map_cons]

/-! ### Numbers -/

theorem isSpace_of_isDigit {c : Char} (h : c.isDigit = true) :
    isSpace c = false ∧ c ≠ '-' ∧ c ≠ '+' := by
  have hle : 48 ≤ c.toNat := by
    simp only [Char.isDigit, Bool.and_eq_true, decide_eq_true_eq, ge_iff_le,
      UInt32.le_iff_toNat_le] at h
    exact h.1
  have hne : ∀ d : Char, d.toNat < 48 → c ≠ d := by
    intro d hd heq
    rw [heq] at hle
    omega
  refine ⟨?_, hne '-' (by decide), hne '+' (by decide)⟩
  rw [isSpace, decide_eq_false (hne ' ' (by decide)), Bool.false_or, Bool.and_eq_false_iff]
  right
  rw [decide_eq_false_iff_not, Char.le_def, UInt32.le_iff_toNat_le]
  intro hr
  have : c.toNat ≤ 13 := hr
  omega

/-- The number at the front of a line. -/
theorem numberParts_digits {ds : CStr} (hne : ds ≠ []) (hds : ∀ c ∈ ds, c.isDigit = true)
    (s : CStr) : numberParts (ds ++ ' ' :: s) = (false, ds) := by
  obtain ⟨d, rest, rfl⟩ := List.exists_cons_of_ne_nil hne
  obtain ⟨hspace, hminus, hplus⟩ := isSpace_of_isDigit (hds d List.mem_cons_self)
  have htake : (d :: rest ++ ' ' :: s).takeWhile Char.isDigit = d :: rest := by
    rw [List.takeWhile_append_of_pos hds]
    simp [Char.isDigit]
  rw [List.cons_append] at htake
  rw [numberParts, List.cons_append, List.dropWhile_cons_of_neg (by simp [hspace])]
  split
  · rename_i heq
    rw [List.cons.injEq] at heq
    exact absurd heq.1 hminus
  · rename_i heq
    rw [List.cons.injEq] at heq
    exact absurd heq.1 hplus
  · rw [htake]

theorem strtoul_spelling (hr : Spelled mountId parentId tail r) (hle : r.mountId ≤ ulongMax)
    (s : CStr) : strtoul (spelling mountId parentId tail r ++ s) = some (r.mountId, true) := by
  obtain ⟨hne, hdigits, hvalue⟩ := readNumber_eq_some_iff.1 hr.mountId
  have hparts := numberParts_digits hne hdigits
  simp only [spelling, fields, List.append_assoc, List.cons_append, strtoul, hparts]
  cases mountId with
  | nil => exact absurd rfl hne
  | cons d rest => simp only [hvalue, if_neg (Nat.not_lt.2 hle), Bool.false_eq_true, if_false]

theorem readNumber_printUnsigned (n : ℕ) : readNumber (printUnsigned n) = some n := by
  rw [readNumber_eq_some_iff]
  refine ⟨Nat.toDigits_ne_nil, ?_, ?_⟩
  · intro c hc
    exact Nat.isDigit_of_mem_toDigits (by decide) (by decide) hc
  · rw [decimalValue, printUnsigned, ← Nat.ofDigitChars_eq_foldl, Nat.ofDigitChars_ten_toDigits]

/-! ### The lines of bindings -/

/-- The characters that are escaped in a path. -/
def special (c : Char) : Bool := c = ' ' || c = '\\' || c = '\t' || c = '\n'

theorem writeMountinfoPath_eq (path : CStr) : writeMountinfoPath path = escape special path := by
  rw [writeMountinfoPath, escape]
  congr 1
  funext c
  by_cases hspace : c = ' '
  · rw [hspace]
    rfl
  by_cases hback : c = '\\'
  · rw [hback]
    rfl
  by_cases htab : c = '\t'
  · rw [htab]
    rfl
  by_cases hline : c = '\n'
  · rw [hline]
    rfl
  simp [special, hspace, hback, htab, hline]

/-- A reader gets the path of the binding back. -/
theorem unescape_writeMountinfoPath (path : CStr) : unescape (writeMountinfoPath path) = path := by
  rw [writeMountinfoPath_eq]
  apply unescape_escape (by rfl)
  intro c hc
  simp only [special, Bool.or_eq_true, decide_eq_true_eq] at hc
  obtain ((rfl | rfl) | rfl) | rfl := hc <;> decide

theorem space_notMem_writeMountinfoPath (path : CStr) : ' ' ∉ writeMountinfoPath path := by
  rw [writeMountinfoPath_eq]
  exact notMem_escape rfl (by decide) (by decide) path

theorem newline_notMem_writeMountinfoPath (path : CStr) : '\n' ∉ writeMountinfoPath path := by
  rw [writeMountinfoPath_eq]
  exact notMem_escape rfl (by decide) (by decide) path

/-- The options of a binding as its line has them. -/
def bindingOptions (readonly nosuid nodev : Bool) : CStr :=
  (if readonly then str "ro" else str "rw") ++ (if nosuid then str ",nosuid" else []) ++
    (if nodev then str ",nodev" else [])

/-- What a reader finds in the line of a binding. -/
def bindingRecord (rootId mountId : ℕ) (b : Binding) : Record where
  mountId := mountId
  parentId := rootId
  device := str "0:1"
  root := str "/"
  mountField := writeMountinfoPath b.guest
  options := bindingOptions b.readonly (isNosuid b) (isNodev b)
  rest := [str "-", str "none", str "none", str "rw"]

/-- What a reader finds in the line of the directory behind a tmpfs. -/
def tmpfsRecord (rootId mountId : ℕ) (b : Binding) : Record where
  mountId := mountId
  parentId := rootId
  device := str "0:1"
  root := str "/"
  mountField := writeMountinfoPath b.host
  options := str "rw"
  rest := [str "-", str "tmpfs", str "tmpfs", str "rw"]

theorem spelled_bindingRecord (rootId mountId : ℕ) (b : Binding) :
    Spelled (printUnsigned mountId) (printUnsigned rootId)
      (bindingOptions b.readonly (isNosuid b) (isNodev b) ++ str " - none none rw")
      (bindingRecord rootId mountId b) := by
  refine ⟨readNumber_printUnsigned mountId, readNumber_printUnsigned rootId, ?_, ?_,
    space_notMem_writeMountinfoPath b.guest, ?_, ?_⟩
  all_goals simp only [bindingRecord]
  · decide
  · decide
  · cases b.readonly <;> cases isNosuid b <;> cases isNodev b <;> decide
  · decide

theorem spelled_tmpfsRecord (rootId mountId : ℕ) (b : Binding) :
    Spelled (printUnsigned mountId) (printUnsigned rootId) (str "rw - tmpfs tmpfs rw")
      (tmpfsRecord rootId mountId b) := by
  refine ⟨readNumber_printUnsigned mountId, readNumber_printUnsigned rootId, ?_, ?_,
    space_notMem_writeMountinfoPath b.host, ?_, ?_⟩
  all_goals
    simp only [tmpfsRecord]
    decide

theorem bindingLine_eq (rootId mountId : ℕ) (b : Binding) :
    bindingLine rootId mountId b =
      spelling (printUnsigned mountId) (printUnsigned rootId)
        (bindingOptions b.readonly (isNosuid b) (isNodev b) ++ str " - none none rw")
        (bindingRecord rootId mountId b) ++ ['\n'] := by
  simp [bindingLine, lineStart, spelling, fields, bindingRecord, bindingOptions, str]

theorem tmpfsLine_eq (rootId mountId : ℕ) (b : Binding) :
    tmpfsLine rootId mountId b =
      spelling (printUnsigned mountId) (printUnsigned rootId) (str "rw - tmpfs tmpfs rw")
        (tmpfsRecord rootId mountId b) ++ ['\n'] := by
  simp [tmpfsLine, lineStart, spelling, fields, tmpfsRecord, str]

end NeoProot.Mountinfo
