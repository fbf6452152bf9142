import NeoProot.Execve.BinfmtScript
import NeoProot.Lib.Lines

/-!
# Interpreter lines

The tracer and the kernel take an interpreter line apart in different ways.  A line without
a byte that one of them takes for its end has the same parts for both.

## Main definitions

* `ReadAlike` — the texts that the tracer reads as the kernel does.
* `Line` — the parts of an interpreter line.
* `read_alike` — both find the same interpreter and the same argument.
-/

namespace NeoProot.Shebang
open Aoxp

/-! ### Texts that read alike -/

/-- The text behind `#!` that both read. -/
def scriptText (content : Bytes) : Bytes := (content.take binprmBufSize).drop 2

/-- The last byte is a blank, or is none. -/
def EndsIn (blank : Bool) (text : Bytes) : Prop := ∃ b ∈ text.getLast?, isBlank b = blank

/-- **A text that the tracer reads as the kernel does.**  In front of its first newline there
is no NUL and no carriage return.  A text without a newline has none of these, and if it
ends within the buffer it does not end in a blank, unless it fills all but the last byte; if
it fills the buffer it ends in a blank. -/
def ReadAlike (text : Bytes) : Prop :=
  (∀ b ∈ text.takeWhile (· ≠ 10), b ≠ 0 ∧ b ≠ 13) ∧
    (10 ∉ text → (text.length < binprmBufSize - 3 → EndsIn false text) ∧
      (text.length = binprmBufSize - 2 → EndsIn true text))

/-! ### The parts of a line -/

/-- The parts of a line that is not blank: its path, its argument, which can be empty, and
the blanks around them. -/
structure Line (text : Bytes) where
  lead : Bytes
  name : Bytes
  gap : Bytes
  argument : Bytes
  trail : Bytes
  eq : text = lead ++ (name ++ (gap ++ (argument ++ trail)))
  lead_blank : ∀ b ∈ lead, isBlank b = true
  gap_blank : ∀ b ∈ gap, isBlank b = true
  trail_blank : ∀ b ∈ trail, isBlank b = true
  name_ne : name ≠ []
  name_solid : ∀ b ∈ name, isBlank b = false
  argument_head : ∀ b ∈ argument.head?, isBlank b = false
  argument_last : ∀ b ∈ argument.getLast?, isBlank b = false
  gap_iff : gap = [] ↔ argument = []

/-- No byte ends the line before its end. -/
def Plain (text : Bytes) : Prop := ∀ b ∈ text, b ≠ 0 ∧ b ≠ 10 ∧ b ≠ 13

variable {text rest : Bytes} {α : Type*}

theorem head?_dropWhile_false (l : List α) (q : α → Bool) :
    ∀ b ∈ (l.dropWhile q).head?, q b = false := by
  intro b hb
  induction l with
  | nil => cases hb
  | cons x xs ih =>
    by_cases hx : q x = true
    · rw [List.dropWhile_cons_of_pos hx] at hb
      exact ih hb
    · rw [List.dropWhile_cons_of_neg hx] at hb
      cases hb
      simpa using hx

theorem dropWhile_of_head? {l : List α} {q : α → Bool} (h : ∀ b ∈ l.head?, q b = false) :
    l.dropWhile q = l := by
  cases l with
  | nil => rfl
  | cons x xs => exact List.dropWhile_cons_of_neg (by simp [h x rfl])

theorem takeWhile_of_head? {l : List α} {q : α → Bool} (h : ∀ b ∈ l.head?, q b = false) :
    l.takeWhile q = [] := by
  cases l with
  | nil => rfl
  | cons x xs => exact List.takeWhile_cons_of_neg (by simp [h x rfl])

theorem rdropWhile_append_of_pos {l t : List α} {q : α → Bool} (ht : ∀ b ∈ t, q b = true) :
    (l ++ t).rdropWhile q = l.rdropWhile q := by
  rw [List.rdropWhile, List.rdropWhile, List.reverse_append,
    List.dropWhile_append_of_pos fun b hb => ht b (List.mem_reverse.1 hb)]

theorem rdropWhile_of_getLast? {l : List α} {q : α → Bool}
    (h : ∀ b ∈ l.getLast?, q b = false) : l.rdropWhile q = l := by
  rw [List.rdropWhile_eq_self_iff]
  intro hl
  rw [h _ (List.getLast?_eq_getLast_of_ne_nil hl)]
  exact Bool.false_ne_true

theorem getLast?_rdropWhile_false (l : List α) (q : α → Bool) :
    ∀ b ∈ (l.rdropWhile q).getLast?, q b = false := by
  intro b hb
  rw [List.rdropWhile, List.getLast?_reverse] at hb
  exact head?_dropWhile_false _ _ b hb

theorem mem_rtakeWhile_true {l : List α} {q : α → Bool} {b : α} (hb : b ∈ l.rtakeWhile q) :
    q b = true := by
  rw [List.rtakeWhile, List.mem_reverse] at hb
  exact List.mem_takeWhile_imp hb

theorem exists_line (h : ∃ b ∈ text, isBlank b = false) : Nonempty (Line text) := by
  have hname : (text.dropWhile isBlank).takeWhile (fun b => !isBlank b) ≠ [] := by
    cases hbody : text.dropWhile isBlank with
    | nil =>
      obtain ⟨b, hb, hsolid⟩ := h
      rw [List.dropWhile_eq_nil_iff] at hbody
      rw [hbody b hb] at hsolid
      cases hsolid
    | cons b bs =>
      have hb := head?_dropWhile_false text isBlank b (by rw [hbody]; rfl)
      rw [List.takeWhile_cons_of_pos (by simp [hb])]
      exact List.cons_ne_nil _ _
  have hsolid : ∀ b ∈ (text.dropWhile isBlank).takeWhile (fun b => !isBlank b),
      isBlank b = false := fun b hb => by
    simpa using List.mem_takeWhile_imp hb
  have hlead : ∀ b ∈ text.takeWhile isBlank, isBlank b = true :=
    fun b hb => List.mem_takeWhile_imp hb
  have hsplit : text = text.takeWhile isBlank ++
      ((text.dropWhile isBlank).takeWhile (fun b => !isBlank b) ++
        (text.dropWhile isBlank).dropWhile (fun b => !isBlank b)) := by
    rw [List.takeWhile_append_dropWhile, List.takeWhile_append_dropWhile]
  generalize (text.dropWhile isBlank).takeWhile (fun b => !isBlank b) = name at *
  have hstart := head?_dropWhile_false (text.dropWhile isBlank) (fun b => !isBlank b)
  generalize (text.dropWhile isBlank).dropWhile (fun b => !isBlank b) = behind at hsplit hstart
  by_cases hblank : ∀ b ∈ behind, isBlank b = true
  · exact ⟨{
      lead := text.takeWhile isBlank, name, gap := [], argument := [], trail := behind
      eq := hsplit
      lead_blank := hlead
      gap_blank := fun b hb => absurd hb List.not_mem_nil
      trail_blank := hblank
      name_ne := hname
      name_solid := hsolid
      argument_head := fun b hb => by cases hb
      argument_last := fun b hb => by cases hb
      gap_iff := Iff.rfl }⟩
  · have hargument : (behind.dropWhile isBlank).rdropWhile isBlank ≠ [] := by
      intro hnil
      apply hblank
      rw [List.rdropWhile_eq_nil_iff] at hnil
      intro b hb
      rw [← @List.takeWhile_append_dropWhile _ isBlank behind, List.mem_append] at hb
      cases hb with
      | inl hb => exact List.mem_takeWhile_imp hb
      | inr hb => exact hnil b hb
    have hgap : behind.takeWhile isBlank ≠ [] := by
      cases behind with
      | nil => exact absurd (fun b hb => absurd hb List.not_mem_nil) hblank
      | cons b bs =>
        have hb := hstart b rfl
        rw [Bool.not_eq_false'] at hb
        rw [List.takeWhile_cons_of_pos hb]
        exact List.cons_ne_nil _ _
    have hhead : ∀ b ∈ ((behind.dropWhile isBlank).rdropWhile isBlank).head?,
        isBlank b = false := by
      intro b hb
      obtain ⟨t, ht⟩ := List.rdropWhile_prefix isBlank (behind.dropWhile isBlank)
      apply head?_dropWhile_false behind isBlank b
      rw [← ht, List.head?_append_of_ne_nil _ hargument]
      exact hb
    exact ⟨{
      lead := text.takeWhile isBlank, name, gap := behind.takeWhile isBlank
      argument := (behind.dropWhile isBlank).rdropWhile isBlank
      trail := (behind.dropWhile isBlank).rtakeWhile isBlank
      eq := by
        rw [List.rdropWhile_append_rtakeWhile, List.takeWhile_append_dropWhile]
        exact hsplit
      lead_blank := hlead
      gap_blank := fun b hb => List.mem_takeWhile_imp hb
      trail_blank := fun b hb => mem_rtakeWhile_true hb
      name_ne := hname
      name_solid := hsolid
      argument_head := hhead
      argument_last := getLast?_rdropWhile_false _ _
      gap_iff := iff_of_false hgap hargument }⟩

/-! ### Both readings of a line -/

theorem head?_append_false {l t : Bytes} {q : UInt8 → Bool} (hne : l ≠ [])
    (h : ∀ b ∈ l, q b = false) : ∀ b ∈ (l ++ t).head?, q b = false := by
  intro b hb
  rw [List.head?_append_of_ne_nil _ hne] at hb
  exact h b (List.mem_of_mem_head? hb)

theorem nativeStrdup_eq {s : Bytes} (hs : 0 ∉ s) : nativeStrdup s = s := by
  rw [nativeStrdup, List.takeWhile_eq_self_iff]
  intro b hb
  rw [decide_eq_true_eq]
  rintro rfl
  exact hs hb

/-- The byte behind the line, if there is one, ends it for the tracer. -/
def Ends (rest : Bytes) : Prop := ∀ b ∈ rest.head?, isLineEnd b = true

theorem isBlank_of_isLineEnd {b : UInt8} (hb : isLineEnd b = true) : isBlank b = false := by
  rw [isLineEnd, Bool.or_eq_true, decide_eq_true_eq, decide_eq_true_eq] at hb
  obtain rfl | rfl := hb
  · rfl
  · rfl

theorem isLineEnd_of_isBlank {b : UInt8} (hb : isBlank b = true) : isLineEnd b = false := by
  cases hend : isLineEnd b with
  | false => rfl
  | true =>
    rw [isBlank_of_isLineEnd hend] at hb
    cases hb

theorem isLineEnd_of_plain (hplain : Plain text) {b : UInt8} (hb : b ∈ text) :
    isLineEnd b = false := by
  obtain ⟨-, hnewline, hreturn⟩ := hplain b hb
  simp [isLineEnd, hnewline, hreturn]

theorem not_mem_zero_of_plain (hplain : Plain text) : 0 ∉ text := fun h => (hplain 0 h).1 rfl

theorem Plain.mono {l : Bytes} (hplain : Plain text) (hsub : ∀ b ∈ l, b ∈ text) : Plain l :=
  fun b hb => hplain b (hsub b hb)

namespace Line

variable (l : Line text)

include l in
theorem plain_name (hplain : Plain text) : Plain l.name :=
  hplain.mono fun b hb => by
    rw [l.eq]
    simp [hb]

theorem plain_argument (hplain : Plain text) : Plain l.argument :=
  hplain.mono fun b hb => by
    rw [l.eq]
    simp [hb]

theorem plain_trail (hplain : Plain text) : Plain l.trail :=
  hplain.mono fun b hb => by
    rw [l.eq]
    simp [hb]

/-- Behind the leading blanks stands the path. -/
theorem dropWhile_blank (t : Bytes) :
    (l.lead ++ (l.name ++ t)).dropWhile isBlank = l.name ++ t := by
  rw [List.dropWhile_append_of_pos l.lead_blank]
  exact dropWhile_of_head? (head?_append_false l.name_ne l.name_solid)

/-- The bytes without the blanks at the end. -/
theorem rdropWhile_blank :
    text.rdropWhile isBlank = l.lead ++ (l.name ++ (l.gap ++ l.argument)) := by
  have hsplit : text = (l.lead ++ (l.name ++ (l.gap ++ l.argument))) ++ l.trail := by
    simpa using l.eq
  have hlast : ∀ b ∈ (l.lead ++ (l.name ++ (l.gap ++ l.argument))).getLast?,
      isBlank b = false := by
    intro b hb
    by_cases hargument : l.argument = []
    · rw [l.gap_iff.2 hargument, hargument, List.append_nil, List.append_nil,
        List.getLast?_append_of_ne_nil _ l.name_ne] at hb
      exact l.name_solid b (List.mem_of_mem_getLast? hb)
    · rw [← List.append_assoc, ← List.append_assoc,
        List.getLast?_append_of_ne_nil _ hargument] at hb
      exact l.argument_last b hb
  rw [congrArg (List.rdropWhile isBlank) hsplit, rdropWhile_append_of_pos l.trail_blank,
    rdropWhile_of_getLast? hlast]

/-- **The tracer reads the parts of a line.** -/
theorem shebangLine_eq (hplain : Plain text) (hrest : Ends rest) :
    shebangLine (text ++ rest) = (l.name, l.argument) := by
  have hname : ∀ b ∈ l.name, (!(isBlank b || isLineEnd b)) = true := fun b hb => by
    simp [l.name_solid b hb, isLineEnd_of_plain (l.plain_name hplain) hb]
  have hargument : ∀ b ∈ l.argument, (!isLineEnd b) = true := fun b hb => by
    simp [isLineEnd_of_plain (l.plain_argument hplain) hb]
  have htrail : ∀ b ∈ l.trail, (!isLineEnd b) = true := fun b hb => by
    simp [isLineEnd_of_plain (l.plain_trail hplain) hb]
  have hstop : ∀ b ∈ rest.head?, (!isLineEnd b) = false := fun b hb => by
    simp [hrest b hb]
  have hsolid : ∀ b ∈ rest.head?, isBlank b = false := fun b hb =>
    isBlank_of_isLineEnd (hrest b hb)
  have hbehind : ∀ b ∈ (l.gap ++ (l.argument ++ (l.trail ++ rest))).head?,
      (!(isBlank b || isLineEnd b)) = false := by
    intro b hb
    cases hgap : l.gap with
    | cons c cs =>
      rw [hgap, List.cons_append, List.head?_cons, Option.mem_some] at hb
      simp [← hb, l.gap_blank c (by rw [hgap]; exact List.mem_cons_self)]
    | nil =>
      rw [hgap, l.gap_iff.1 hgap, List.nil_append, List.nil_append] at hb
      cases htail : l.trail with
      | cons c cs =>
        rw [htail, List.cons_append, List.head?_cons, Option.mem_some] at hb
        simp [← hb, l.trail_blank c (by rw [htail]; exact List.mem_cons_self)]
      | nil =>
        rw [htail, List.nil_append] at hb
        simp [hrest b hb]
  have htext : text ++ rest =
      l.lead ++ (l.name ++ (l.gap ++ (l.argument ++ (l.trail ++ rest)))) := by
    rw [congrArg (· ++ rest) l.eq]
    simp
  have hzero := nativeStrdup_eq (not_mem_zero_of_plain (l.plain_name hplain))
  have hzero' := nativeStrdup_eq (not_mem_zero_of_plain (l.plain_argument hplain))
  rw [shebangLine, htext, l.dropWhile_blank]
  dsimp only
  rw [List.takeWhile_append_of_pos hname, takeWhile_of_head? hbehind, List.append_nil, hzero,
    List.dropWhile_append_of_pos hname, dropWhile_of_head? hbehind]
  by_cases hnone : l.argument = []
  · rw [hnone, l.gap_iff.2 hnone, List.nil_append, List.nil_append]
    cases htail : l.trail ++ rest with
    | nil => rfl
    | cons b bs =>
      dsimp only
      rw [← htail, List.dropWhile_append_of_pos l.trail_blank, dropWhile_of_head? hsolid,
        takeWhile_of_head? hstop, List.rdropWhile_nil, ite_eq_left_iff]
      exact fun _ => rfl
  · cases hgap : l.gap with
    | nil => exact absurd (l.gap_iff.1 hgap) hnone
    | cons b bs =>
      have hblank : isBlank b = true := l.gap_blank b (by rw [hgap]; exact List.mem_cons_self)
      have hhead : ∀ b ∈ (l.argument ++ (l.trail ++ rest)).head?, isBlank b = false := by
        intro b hb
        rw [List.head?_append_of_ne_nil _ hnone] at hb
        exact l.argument_head b hb
      rw [List.cons_append]
      dsimp only
      rw [isLineEnd_of_isBlank hblank, if_neg Bool.false_ne_true, ← List.cons_append, ← hgap,
        List.dropWhile_append_of_pos l.gap_blank, dropWhile_of_head? hhead,
        List.takeWhile_append_of_pos hargument, List.takeWhile_append_of_pos htrail,
        takeWhile_of_head? hstop, List.append_nil, rdropWhile_append_of_pos l.trail_blank,
        rdropWhile_of_getLast? l.argument_last, hzero']

/-- **The kernel reads the parts of a line**, with NULs or without. -/
theorem splitLine_eq (hplain : Plain text) (n : ℕ) :
    splitLine (l.lead ++ (l.name ++ (l.gap ++ (l.argument ++ List.replicate n 0)))) =
      some (l.name, if l.argument = [] then none else some l.argument) := by
  have hname : ∀ b ∈ l.name, (!isTerminator b) = true := fun b hb => by
    simp [isTerminator, l.name_solid b hb, (l.plain_name hplain b hb).1]
  have hline : ¬ l.name ++ (l.gap ++ (l.argument ++ List.replicate n 0)) = [] := fun h =>
    l.name_ne (List.append_eq_nil_iff.1 h).1
  rw [splitLine, l.dropWhile_blank]
  dsimp only
  rw [if_neg hline, List.takeWhile_append_of_pos hname, List.dropWhile_append_of_pos hname]
  by_cases hnone : l.argument = []
  · rw [hnone, l.gap_iff.2 hnone, List.nil_append, List.nil_append, if_pos rfl]
    cases n with
    | zero =>
      rw [List.replicate_zero, List.takeWhile_nil, List.append_nil, List.dropWhile_nil]
    | succ n =>
      rw [List.replicate_succ, List.takeWhile_cons_of_neg (by decide), List.append_nil,
        List.dropWhile_cons_of_neg (by decide)]
      rfl
  · cases hgap : l.gap with
    | nil => exact absurd (l.gap_iff.1 hgap) hnone
    | cons b bs =>
      have hblank : isBlank b = true := l.gap_blank b (by rw [hgap]; exact List.mem_cons_self)
      have hne : b ≠ 0 := by
        rintro rfl
        cases hblank
      have hstart : ∀ x ∈ (b :: (bs ++ (l.argument ++ List.replicate n 0))).head?,
          (!isTerminator x) = false := by
        intro x hx
        rw [List.head?_cons, Option.mem_some] at hx
        simp [← hx, isTerminator, hblank]
      have hhead : ∀ b ∈ (l.argument ++ List.replicate n 0).head?, isBlank b = false := by
        intro b hb
        rw [List.head?_append_of_ne_nil _ hnone] at hb
        exact l.argument_head b hb
      have hzeros : ∀ b ∈ (List.replicate n (0 : UInt8)).head?, decide (b ≠ 0) = false := by
        intro b hb
        simp [List.eq_of_mem_replicate (List.mem_of_mem_head? hb)]
      have hbytes : ∀ b ∈ l.argument, decide (b ≠ 0) = true := fun b hb =>
        decide_eq_true (l.plain_argument hplain b hb).1
      rw [List.cons_append, takeWhile_of_head? hstart, List.append_nil, dropWhile_of_head? hstart]
      dsimp only
      rw [if_neg hne, if_neg hnone, ← List.cons_append, ← hgap,
        List.dropWhile_append_of_pos l.gap_blank, dropWhile_of_head? hhead, nativeStrdup,
        List.takeWhile_append_of_pos hbytes, takeWhile_of_head? hzeros, List.append_nil]

end Line

/-- A blank line has no path. -/
theorem shebangLine_blank (hblank : ∀ b ∈ text, isBlank b = true) (hrest : Ends rest) :
    (shebangLine (text ++ rest)).1 = [] := by
  have hsolid : ∀ b ∈ rest.head?, isBlank b = false := fun b hb =>
    isBlank_of_isLineEnd (hrest b hb)
  have hstop : ∀ b ∈ rest.head?, (!(isBlank b || isLineEnd b)) = false := fun b hb => by
    simp [hrest b hb]
  rw [shebangLine, List.dropWhile_append_of_pos hblank, dropWhile_of_head? hsolid]
  dsimp only
  rw [takeWhile_of_head? hstop, dropWhile_of_head? hstop]
  cases rest with
  | nil => rfl
  | cons b bs =>
    have hb : isLineEnd b = true := hrest b rfl
    dsimp only
    rw [if_pos hb]
    rfl

/-! ### Texts -/

/-- The tracer and the kernel find the same in a text: no path, or the same path and the
same argument. -/
def SameReading (text padded : Bytes) : Prop :=
  ((scriptLine padded).bind splitLine = none ∧ (shebangLine text).1 = []) ∨
    ∃ name argument, name ≠ [] ∧ 0 ∉ name ∧ 0 ∉ argument ∧
      shebangLine text = (name, argument) ∧ (scriptLine padded).bind splitLine =
        some (name, if argument = [] then none else some argument)

/-- A line reads the same if the kernel finds it without the blanks at its end. -/
theorem sameReading_of_line {padded : Bytes} (hplain : Plain text) (hrest : Ends rest)
    (hline : scriptLine padded = some (text.rdropWhile isBlank)) :
    SameReading (text ++ rest) padded := by
  by_cases hblank : ∀ b ∈ text, isBlank b = true
  · left
    refine ⟨?_, shebangLine_blank hblank hrest⟩
    rw [hline, Option.bind_some, (List.rdropWhile_eq_nil_iff).2 hblank]
    rfl
  · right
    push Not at hblank
    obtain ⟨b, hb, hsolid⟩ := hblank
    obtain ⟨l⟩ := exists_line ⟨b, hb, Bool.eq_false_of_not_eq_true hsolid⟩
    refine ⟨l.name, l.argument, l.name_ne, not_mem_zero_of_plain (l.plain_name hplain),
      not_mem_zero_of_plain (l.plain_argument hplain), l.shebangLine_eq hplain hrest, ?_⟩
    have hsplit := l.splitLine_eq hplain 0
    rw [List.replicate_zero, List.append_nil] at hsplit
    rw [hline, Option.bind_some, l.rdropWhile_blank, hsplit]

/-- The text of a buffer. -/
def pad (text : Bytes) : Bytes :=
  text ++ List.replicate (binprmBufSize - 2 - text.length) 0

theorem scriptLine_of_newline {line : Bytes} (hplain : Plain line) :
    scriptLine (pad (line ++ 10 :: rest)) = some (line.rdropWhile isBlank) := by
  have hnewline : 10 ∉ line := fun h => (hplain 10 h).2.1 rfl
  have hbytes : ∀ b ∈ line, decide (b ≠ 0) = true := fun b hb =>
    decide_eq_true (hplain b hb).1
  rw [scriptLine, pad, List.append_assoc, List.cons_append, Lines.takeWhile_line hnewline,
    List.takeWhile_append_of_pos hbytes, List.takeWhile_cons_of_pos (by decide), if_pos (by simp)]

/-- The kernel takes the text without its end where there is no newline. -/
theorem scriptLine_of_plain (hplain : Plain text)
    (hterminator : ((pad text).dropWhile isBlank).any isTerminator = true) :
    scriptLine (pad text) = some (((pad text).take (binprmBufSize - 3)).rdropWhile isBlank) := by
  have hnewline : 10 ∉ (pad text).takeWhile (· ≠ 0) := by
    intro hmem
    have h := (List.takeWhile_sublist _).mem hmem
    rw [pad, List.mem_append] at h
    cases h with
    | inl h => exact (hplain 10 h).2.1 rfl
    | inr h => exact absurd (List.eq_of_mem_replicate h) (by decide)
  rw [scriptLine, if_neg hnewline, if_pos hterminator]

/-- A NUL behind the text is a terminator. -/
theorem any_terminator_pad (hlt : text.length < binprmBufSize - 2) :
    ((pad text).dropWhile isBlank).any isTerminator = true := by
  obtain ⟨n, hn⟩ := Nat.exists_eq_add_of_lt hlt
  have hpad : binprmBufSize - 2 - text.length = n + 1 := by omega
  rw [List.any_eq_true]
  refine ⟨0, ?_, rfl⟩
  rw [pad, hpad, List.replicate_succ']
  rw [← List.append_assoc, List.dropWhile_append]
  split
  · exact List.mem_singleton_self 0
  · exact List.mem_append_right _ (List.mem_singleton_self 0)

/-- The file ends one byte in front of the buffer's end. -/
theorem sameReading_of_all_but_one (hplain : Plain text)
    (hlength : text.length = binprmBufSize - 3) : SameReading text (pad text) := by
  have htake : (pad text).take (binprmBufSize - 3) = text := by
    rw [pad, List.take_left' hlength]
  have hlt : text.length < binprmBufSize - 2 := by
    rw [hlength]
    decide
  have hline := scriptLine_of_plain hplain (any_terminator_pad hlt)
  rw [htake] at hline
  have hsame := @sameReading_of_line text [] _ hplain (fun b hb => by cases hb) hline
  rw [List.append_nil] at hsame
  exact hsame

/-- The file fills the buffer, and its last byte in there is a blank. -/
theorem sameReading_of_full (hplain : Plain text) (hlength : text.length = binprmBufSize - 2)
    (hlast : EndsIn true text) : SameReading text (pad text) := by
  have hpad : pad text = text := by
    rw [pad, hlength, Nat.sub_self, List.replicate_zero, List.append_nil]
  by_cases hblank : ∀ b ∈ text, isBlank b = true
  · left
    have hnewline : 10 ∉ text.takeWhile (· ≠ 0) := fun hmem =>
      (hplain 10 ((List.takeWhile_sublist _).mem hmem)).2.1 rfl
    have hname := @shebangLine_blank text [] hblank (fun b hb => by cases hb)
    rw [List.append_nil] at hname
    rw [hpad, scriptLine, if_neg hnewline, (List.dropWhile_eq_nil_iff).2 hblank, List.any_nil,
      if_neg Bool.false_ne_true, Option.bind_none]
    exact ⟨rfl, hname⟩
  · obtain ⟨b, hb, hsolid⟩ := hlast
    obtain ⟨init, rfl⟩ := List.getLast?_eq_some_iff.1 hb
    have hinit : init.dropWhile isBlank ≠ [] := by
      intro hnil
      rw [List.dropWhile_eq_nil_iff] at hnil
      apply hblank
      intro x hx
      rw [List.mem_append, List.mem_singleton] at hx
      obtain hx | rfl := hx
      · exact hnil x hx
      · exact hsolid
    have hterminator : ((pad (init ++ [b])).dropWhile isBlank).any isTerminator = true := by
      rw [hpad, List.dropWhile_append, if_neg (by simpa using hinit), List.any_append]
      simp [isTerminator, hsolid]
    have htake : (pad (init ++ [b])).take (binprmBufSize - 3) = init := by
      rw [List.length_append, List.length_singleton] at hlength
      rw [hpad, List.take_left' (by omega)]
    have hline := scriptLine_of_plain hplain hterminator
    rw [htake, ← List.rdropWhile_concat_pos _ init b hsolid] at hline
    have hsame := @sameReading_of_line (init ++ [b]) [] _ hplain (fun b hb => by cases hb) hline
    rw [List.append_nil] at hsame
    exact hsame

/-- The file ends within the buffer, and its last byte is no blank. -/
theorem sameReading_of_short (hplain : Plain text) (hlt : text.length < binprmBufSize - 3)
    (hlast : EndsIn false text) : SameReading text (pad text) := by
  right
  obtain ⟨b, hb, hsolid⟩ := hlast
  obtain ⟨l⟩ := exists_line ⟨b, List.mem_of_mem_getLast? hb, hsolid⟩
  have htext : text = l.lead ++ (l.name ++ (l.gap ++ l.argument)) := by
    rw [← l.rdropWhile_blank, rdropWhile_of_getLast?]
    intro x hx
    rw [Option.mem_unique hx hb]
    exact hsolid
  obtain ⟨n, hn⟩ := Nat.exists_eq_add_of_lt hlt
  have htake : (pad text).take (binprmBufSize - 3) = text ++ List.replicate (n + 1) 0 := by
    have hfirst : (text ++ List.replicate (n + 1) (0 : UInt8)).length = binprmBufSize - 3 := by
      rw [List.length_append, List.length_replicate]
      omega
    have hpad : pad text = (text ++ List.replicate (n + 1) 0) ++ [0] := by
      have hcount : binprmBufSize - 2 - text.length = n + 1 + 1 := by omega
      rw [pad, hcount, List.replicate_succ', List.append_assoc]
    rw [hpad, List.take_left' hfirst]
  have hzero : (text ++ List.replicate (n + 1) 0).rdropWhile isBlank =
      l.lead ++ (l.name ++ (l.gap ++ (l.argument ++ List.replicate (n + 1) 0))) := by
    rw [List.replicate_succ', ← List.append_assoc, List.rdropWhile_concat_neg _ _ _ (by decide),
      congrArg (· ++ List.replicate n 0) htext]
    simp
  have hread := @Line.shebangLine_eq text [] l hplain (fun b hb => by cases hb)
  rw [List.append_nil] at hread
  refine ⟨l.name, l.argument, l.name_ne, not_mem_zero_of_plain (l.plain_name hplain),
    not_mem_zero_of_plain (l.plain_argument hplain), hread, ?_⟩
  rw [scriptLine_of_plain hplain (any_terminator_pad (by omega)), htake, hzero,
    Option.bind_some, l.splitLine_eq hplain]

/-- **The tracer reads the text as the kernel does.** -/
theorem ReadAlike.sameReading (halike : ReadAlike text)
    (hlength : text.length ≤ binprmBufSize - 2) : SameReading text (pad text) := by
  have hline : Plain (text.takeWhile (· ≠ 10)) := fun b hb => by
    have hnewline := List.mem_takeWhile_imp hb
    rw [decide_eq_true_eq] at hnewline
    exact ⟨(halike.1 b hb).1, hnewline, (halike.1 b hb).2⟩
  cases hbehind : text.dropWhile (· ≠ 10) with
  | cons b rest =>
    have hb : b = 10 := by
      have hstop := head?_dropWhile_false text (· ≠ 10) b (by rw [hbehind]; rfl)
      simpa using hstop
    rw [hb] at hbehind
    have hsplit : text = text.takeWhile (· ≠ 10) ++ 10 :: rest := by
      rw [← hbehind, List.takeWhile_append_dropWhile]
    generalize text.takeWhile (· ≠ 10) = line at hline hsplit
    rw [hsplit]
    refine sameReading_of_line hline (fun x hx => ?_) (scriptLine_of_newline hline)
    rw [List.head?_cons, Option.mem_some] at hx
    rw [← hx]
    rfl
  | nil =>
    rw [List.dropWhile_eq_nil_iff] at hbehind
    rw [List.takeWhile_eq_self_iff.2 hbehind] at hline
    obtain ⟨hshort, hfull⟩ := halike.2 fun hmem => by simpa using hbehind 10 hmem
    by_cases hlt : text.length < binprmBufSize - 3
    · exact sameReading_of_short hline hlt (hshort hlt)
    · by_cases heq : text.length = binprmBufSize - 2
      · exact sameReading_of_full hline heq (hfull heq)
      · exact sameReading_of_all_but_one hline (by omega)

/-! ### Files -/

theorem binprmBuf_of_script {content : Bytes} (hscript : content.take 2 = magic) :
    binprmBuf content = magic ++ pad (scriptText content) := by
  have hcontent : content = magic ++ content.drop 2 := by
    rw [← hscript, List.take_append_drop]
  generalize content.drop 2 = text at hcontent
  rw [hcontent, binprmBuf, scriptText, pad, List.take_append, List.length_append]
  have hmagic : magic.take binprmBufSize = magic := rfl
  have hlength : magic.length = 2 := rfl
  rw [hmagic, hlength, List.drop_left' hlength, List.append_assoc, List.length_take]
  congr 3
  omega

theorem take_binprmBuf_iff (content : Bytes) :
    (binprmBuf content).take 2 = magic ↔ content.take 2 = magic := by
  constructor
  · intro h
    match content with
    | [] => exact absurd h (by decide)
    | [a] =>
      have hsecond : some (0 : UInt8) = some 33 := congrArg (·[1]?) h
      exact absurd hsecond (by decide)
    | a :: b :: rest => exact h
  · intro h
    rw [binprmBuf_of_script h]
    rfl

/-- No script for the kernel is none for the tracer. -/
theorem not_script_alike {content : Bytes} (hscript : ¬ content.take 2 = magic) :
    loadScript content = .ok none ∧ extractShebang (content.take binprmBufSize) = none := by
  have htake : (content.take binprmBufSize).take 2 = content.take 2 := by
    rw [List.take_take]
    rfl
  rw [loadScript, if_pos (mt (take_binprmBuf_iff content).1 hscript), extractShebang, htake,
    if_neg hscript]
  exact ⟨rfl, rfl⟩

/-- **Both find the same interpreter and the same argument of a script**, or neither finds
one. -/
theorem read_alike {content : Bytes} (hscript : content.take 2 = magic)
    (halike : ReadAlike (scriptText content)) :
    (loadScript content = .error .noexec ∧ ∃ argument,
        extractShebang (content.take binprmBufSize) = some ([], argument)) ∨
      ∃ name argument, name ≠ [] ∧ 0 ∉ name ∧ 0 ∉ argument ∧
        extractShebang (content.take binprmBufSize) = some (name, argument) ∧
        loadScript content =
          .ok (some (name, if argument = [] then none else some argument)) := by
  have htake : (content.take binprmBufSize).take 2 = content.take 2 := by
    rw [List.take_take]
    rfl
  have hlength : (scriptText content).length ≤ binprmBufSize - 2 := by
    rw [scriptText, List.length_drop, List.length_take]
    omega
  have hdrop : (binprmBuf content).drop 2 = pad (scriptText content) := by
    rw [binprmBuf_of_script hscript]
    rfl
  rw [loadScript, if_neg (not_not_intro ((take_binprmBuf_iff content).2 hscript)), hdrop,
    extractShebang, htake, if_pos hscript, ← scriptText]
  obtain ⟨hnone, hname⟩ | ⟨name, argument, hne, hname, hargument, hread, hload⟩ :=
    halike.sameReading hlength
  · left
    rw [hnone]
    refine ⟨rfl, (shebangLine (scriptText content)).2, ?_⟩
    rw [← hname]
  · right
    refine ⟨name, argument, hne, hname, hargument, congrArg some hread, ?_⟩
    rw [hload]

end NeoProot.Shebang
