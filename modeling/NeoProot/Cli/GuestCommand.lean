import NeoProot.Cli.Backend
import Mathlib.Data.Int.Notation
import Mathlib.Tactic.Tauto
import Mathlib.Tactic.SplitIfs

/-!
# The command behind the wrappers

`neoproot_auto_guest_command` walks over the argument vector with two indices.  What it is
after is the command that a chain of wrappers ends up running.

## Main definitions

* `neoprootAutoGuestCommand` — the walk.
* `Behind` — what stands behind the arguments of a wrapper.
* `Designates` — the word that a command line runs, and its wrappers.
* `guestCommand_follows` — the walk finds this word.
-/

namespace NeoProot.Cli

variable {n : ℕ} {x : CStr} {start : ℤ}

/-! ### The walk -/

/-- What the walk answers, unless it reads behind the end of the vector. -/
inductive Walk
  | command (name : CStr)
  | null
  | overread
  deriving DecidableEq, Repr

section

variable (argv : List CStr)

/-- The inner loop, from an index on; nothing, if it reads behind the end. -/
def skipFrom (valueOptions : List CStr) (next : ℕ) : Option ℕ :=
  if next < argv.length then
    match argv[next]? with
    | none => none
    | some candidate =>
      if candidate = str "--" then some (next + 1)
      else if autoIsAssignment candidate then skipFrom valueOptions (next + 1)
      else if candidate.head? ≠ some '-' ∨ candidate.tail = [] then some next
      else if valueOptions.contains candidate then skipFrom valueOptions (next + 2)
      else skipFrom valueOptions (next + 1)
  else some next
termination_by argv.length - next

/-- The outer loop, with a bound on its rounds. -/
def walkFrom : ℕ → ℕ → ℕ → Walk
  | 0, _, _ => .null
  | fuel + 1, depth, index =>
    if index < argv.length then
      match argv[index]? with
      | none => .overread
      | some word =>
        if word = str "--" then walkFrom fuel depth (index + 1)
        else
          match autoFindWrapper (autoBasename word) with
          | none =>
            if autoIsAssignment word then walkFrom fuel depth (index + 1)
            else .command (autoBasename word)
          | some valueOptions =>
            if maxWrappers < depth + 1 then .null
            else
              match skipFrom argv valueOptions (index + 1) with
              | none => .overread
              | some next => if argv.length ≤ next then .null else walkFrom fuel (depth + 1) next
    else .null

/-- `neoproot_auto_guest_command`. -/
def neoprootAutoGuestCommand (start : ℤ) : Walk :=
  if start ≤ 0 ∨ argv.length ≤ start then .null else walkFrom argv argv.length 0 start.toNat

end

/-! ### The rule -/

/-- An option: a dash and something behind it. -/
def IsOption (w : CStr) : Prop := w.head? = some '-' ∧ w.tail ≠ [] ∧ w ≠ str "--"

instance (w : CStr) : Decidable (IsOption w) := inferInstanceAs (Decidable (_ ∧ _))

/-- The options, values and assignments of a wrapper, with one separator at most, and what
stands behind them. -/
inductive Behind (valueOptions : List CStr) : List CStr → List CStr → Prop
  | word {w : CStr} (ws : List CStr) (hsep : w ≠ str "--") (hassign : ¬ autoIsAssignment w = true)
      (hoption : ¬ IsOption w) : Behind valueOptions (w :: ws) (w :: ws)
  | separator (ws : List CStr) : Behind valueOptions (str "--" :: ws) ws
  | assignment {w : CStr} {ws rest : List CStr} (h : autoIsAssignment w = true)
      (hws : Behind valueOptions ws rest) : Behind valueOptions (w :: ws) rest
  | value {w value : CStr} {ws rest : List CStr} (h : IsOption w)
      (hvalue : valueOptions.contains w = true) (hws : Behind valueOptions ws rest) :
      Behind valueOptions (w :: value :: ws) rest
  | flag {w : CStr} {ws rest : List CStr} (h : IsOption w)
      (hvalue : ¬ valueOptions.contains w = true) (hws : Behind valueOptions ws rest) :
      Behind valueOptions (w :: ws) rest

/-- The word that a command line runs, behind so many wrappers. -/
inductive Designates : ℕ → List CStr → CStr → Prop
  | command {w : CStr} (ws : List CStr) (hsep : w ≠ str "--")
      (hassign : ¬ autoIsAssignment w = true)
      (hwrapper : autoFindWrapper (autoBasename w) = none) : Designates 0 (w :: ws) w
  | separator {n : ℕ} {ws : List CStr} {w : CStr} (hws : Designates n ws w) :
      Designates n (str "--" :: ws) w
  | assignment {n : ℕ} {a : CStr} {ws : List CStr} {w : CStr} (h : autoIsAssignment a = true)
      (hws : Designates n ws w) : Designates n (a :: ws) w
  | wrapper {n : ℕ} {x : CStr} {ws rest valueOptions : List CStr} {w : CStr}
      (hsep : x ≠ str "--") (h : autoFindWrapper (autoBasename x) = some valueOptions)
      (hbehind : Behind valueOptions ws rest) (hrest : Designates n rest w) :
      Designates (n + 1) (x :: ws) w

/-- No assignment looks like a wrapper. -/
def NoClash (words : List CStr) : Prop :=
  ∀ w ∈ words, autoIsAssignment w = true → autoFindWrapper (autoBasename w) = none

instance (words : List CStr) : Decidable (NoClash words) := inferInstanceAs (Decidable (∀ _ ∈ _, _))

/-! ### Both loops follow the rule -/

variable {valueOptions ws rest words : List CStr} {w name : CStr} {fuel depth : ℕ}

theorem not_option_iff (hsep : w ≠ str "--") :
    (w.head? ≠ some '-' ∨ w.tail = []) ↔ ¬ IsOption w := by
  rw [IsOption]
  tauto

theorem ne_separator_of_assignment (h : autoIsAssignment w = true) : w ≠ str "--" := by
  rintro rfl
  exact absurd h (by decide)

theorem IsOption.not_assignment (h : IsOption w) : ¬ autoIsAssignment w = true := by
  obtain ⟨hhead, -⟩ := h
  cases w with
  | nil => cases hhead
  | cons c cs =>
    rw [List.head?_cons, Option.some.injEq] at hhead
    subst hhead
    simp [autoIsAssignment, isAlpha]

/-- The inner loop gets behind the arguments of a wrapper. -/
theorem Behind.skipArguments_eq (h : Behind valueOptions ws rest) :
    skipArguments valueOptions ws = rest := by
  induction h with
  | word ws hsep hassign hoption =>
    rw [skipArguments_cons, if_neg hsep, if_neg hassign, if_pos ((not_option_iff hsep).2 hoption)]
  | separator ws => rw [skipArguments_cons, if_pos rfl]
  | assignment h hws ih =>
    rw [skipArguments_cons, if_neg (ne_separator_of_assignment h), if_pos h]
    exact ih
  | value h hvalue hws ih =>
    have hword := mt (not_option_iff h.2.2).1 (not_not.2 h)
    rw [skipArguments_cons, if_neg h.2.2, if_neg h.not_assignment, if_neg hword, if_pos hvalue]
    exact ih
  | flag h hvalue hws ih =>
    have hword := mt (not_option_iff h.2.2).1 (not_not.2 h)
    rw [skipArguments_cons, if_neg h.2.2, if_neg h.not_assignment, if_neg hword, if_neg hvalue]
    exact ih

/-- If the inner loop does not pass all words, it has passed the arguments of a wrapper. -/
theorem behind_skipArguments (h : skipArguments valueOptions ws ≠ []) :
    Behind valueOptions ws (skipArguments valueOptions ws) := by
  fun_induction skipArguments valueOptions ws with
  | case1 => exact absurd rfl h
  | case2 ws => exact .separator ws
  | case3 w ws hsep hassign ih => exact .assignment hassign (ih h)
  | case4 w ws hsep hassign hword => exact .word ws hsep hassign ((not_option_iff hsep).1 hword)
  | case5 => exact absurd rfl h
  | case6 w hsep hassign hword hvalue value ws ih =>
    exact .value (not_not.1 (mt (not_option_iff hsep).2 hword)) hvalue (ih h)
  | case7 w ws hsep hassign hword hvalue ih =>
    exact .flag (not_not.1 (mt (not_option_iff hsep).2 hword)) hvalue (ih h)

theorem Behind.subset (h : Behind valueOptions ws rest) : rest ⊆ ws := by
  induction h with
  | word ws => exact List.Subset.refl _
  | separator ws => exact List.subset_cons_self _ _
  | assignment _ _ ih => exact List.subset_cons_of_subset _ ih
  | value _ _ _ ih => exact List.subset_cons_of_subset _ (List.subset_cons_of_subset _ ih)
  | flag _ _ _ ih => exact List.subset_cons_of_subset _ ih

theorem Designates.ne_nil (h : Designates n ws w) : ws ≠ [] := by
  cases h <;> exact List.cons_ne_nil _ _

theorem designates_separator_iff : Designates n (str "--" :: ws) w ↔ Designates n ws w := by
  constructor
  · intro h
    generalize hsep : str "--" = x at h
    cases h with
    | command _ hne => exact absurd hsep.symm hne
    | separator hws => exact hws
    | assignment hassign => exact absurd hsep.symm (ne_separator_of_assignment hassign)
    | wrapper hne => exact absurd hsep.symm hne
  · exact .separator

theorem designates_assignment_iff {a : CStr} (hassign : autoIsAssignment a = true)
    (hwrapper : autoFindWrapper (autoBasename a) = none) :
    Designates n (a :: ws) w ↔ Designates n ws w := by
  constructor
  · intro h
    cases h with
    | command _ _ hnot => exact absurd hassign hnot
    | separator hws => exact hws
    | assignment _ hws => exact hws
    | wrapper _ hfind =>
      rw [hwrapper] at hfind
      cases hfind
  · exact .assignment hassign

theorem designates_word_iff (hsep : x ≠ str "--") (hassign : ¬ autoIsAssignment x = true)
    (hwrapper : autoFindWrapper (autoBasename x) = none) :
    Designates n (x :: ws) w ↔ n = 0 ∧ w = x := by
  constructor
  · intro h
    cases h with
    | command => exact ⟨rfl, rfl⟩
    | separator => exact absurd rfl hsep
    | assignment h => exact absurd h hassign
    | wrapper _ hfind =>
      rw [hwrapper] at hfind
      cases hfind
  · rintro ⟨rfl, rfl⟩
    exact .command ws hsep hassign hwrapper

theorem designates_wrapper_iff (hsep : x ≠ str "--") (hassign : ¬ autoIsAssignment x = true)
    (hwrapper : autoFindWrapper (autoBasename x) = some valueOptions) :
    Designates n (x :: ws) w ↔
      ∃ k, n = k + 1 ∧ Designates k (skipArguments valueOptions ws) w := by
  constructor
  · intro h
    cases h with
    | command _ _ _ hfind =>
      rw [hwrapper] at hfind
      cases hfind
    | separator => exact absurd rfl hsep
    | assignment h => exact absurd h hassign
    | wrapper _ hfind hbehind hrest =>
      rw [hwrapper, Option.some.injEq] at hfind
      subst hfind
      rw [hbehind.skipArguments_eq]
      exact ⟨_, rfl, hrest⟩
  · rintro ⟨k, rfl, hrest⟩
    exact .wrapper hsep hwrapper (behind_skipArguments hrest.ne_nil) hrest

theorem NoClash.tail (h : NoClash (x :: ws)) : NoClash ws :=
  fun w hw => h w (List.mem_cons_of_mem x hw)

theorem NoClash.skipArguments (h : NoClash ws) (valueOptions : List CStr) :
    NoClash (skipArguments valueOptions ws) := by
  by_cases hnil : Cli.skipArguments valueOptions ws = []
  · rw [hnil]
    exact fun _ hw => absurd hw List.not_mem_nil
  · exact fun w hw => h w ((behind_skipArguments hnil).subset hw)

/-- The outer loop finds the designated word. -/
theorem guestCommandLoop_eq_some_iff (hclash : NoClash words) (hfuel : words.length ≤ fuel)
    (hdepth : depth ≤ maxWrappers) :
    guestCommandLoop fuel depth words = some name ↔
      ∃ n w, depth + n ≤ maxWrappers ∧ Designates n words w ∧ autoBasename w = name := by
  induction fuel generalizing depth words with
  | zero =>
    rw [List.length_eq_zero_iff.1 (Nat.le_zero.1 hfuel), guestCommandLoop_nil]
    constructor
    · intro h
      cases h
    · rintro ⟨n, w, -, h, -⟩
      exact absurd rfl h.ne_nil
  | succ fuel ih =>
    cases words with
    | nil =>
      rw [guestCommandLoop_nil]
      constructor
      · intro h
        cases h
      · rintro ⟨n, w, -, h, -⟩
        exact absurd rfl h.ne_nil
    | cons x ws =>
      have hlength : ws.length ≤ fuel := Nat.le_of_succ_le_succ hfuel
      by_cases hsep : x = str "--"
      · subst hsep
        simp only [guestCommandLoop, if_true, designates_separator_iff]
        exact ih hclash.tail hlength hdepth
      · cases hwrapper : autoFindWrapper (autoBasename x) with
        | none =>
          simp only [guestCommandLoop, if_neg hsep, hwrapper]
          by_cases hassign : autoIsAssignment x = true
          · simp only [if_pos hassign, designates_assignment_iff hassign hwrapper]
            exact ih hclash.tail hlength hdepth
          · simp only [if_neg hassign, designates_word_iff hsep hassign hwrapper,
              Option.some.injEq]
            constructor
            · intro h
              exact ⟨0, x, hdepth, ⟨rfl, rfl⟩, h⟩
            · rintro ⟨n, w, -, ⟨-, rfl⟩, h⟩
              exact h
        | some valueOptions =>
          have hassign : ¬ autoIsAssignment x = true := by
            intro h
            rw [hclash x (by simp) h] at hwrapper
            cases hwrapper
          simp only [guestCommandLoop, if_neg hsep, hwrapper,
            designates_wrapper_iff hsep hassign hwrapper]
          by_cases hdeep : maxWrappers < depth + 1
          · rw [if_pos hdeep]
            constructor
            · intro h
              cases h
            · rintro ⟨n, w, hn, ⟨k, rfl, -⟩, -⟩
              omega
          · rw [if_neg hdeep, ih (hclash.tail.skipArguments valueOptions)
              (Nat.le_trans (length_skipArguments_le valueOptions ws) hlength) (Nat.not_lt.1 hdeep)]
            constructor
            · rintro ⟨k, w, hk, hrest, hname⟩
              exact ⟨k + 1, w, by omega, ⟨k, rfl, hrest⟩, hname⟩
            · rintro ⟨n, w, hn, ⟨k, rfl, hrest⟩, hname⟩
              exact ⟨k, w, by omega, hrest, hname⟩

/-! ### The walk is over the words -/

/-- The inner loop reads words of the vector only. -/
theorem skipFrom_eq (argv valueOptions : List CStr) (next : ℕ) :
    ∃ n, skipFrom argv valueOptions next = some n ∧
      argv.drop n = skipArguments valueOptions (argv.drop next) := by
  have hdrop : ∀ {next word}, argv[next]? = some word →
      argv.drop next = word :: argv.drop (next + 1) := by
    intro next word hword
    obtain ⟨hlt, rfl⟩ := List.getElem?_eq_some_iff.1 hword
    exact List.drop_eq_getElem_cons hlt
  fun_induction skipFrom argv valueOptions next with
  | case1 next hlt hnone =>
    rw [List.getElem?_eq_none_iff] at hnone
    omega
  | case2 next hlt hword =>
    rw [hdrop hword, skipArguments_cons, if_pos rfl]
    exact ⟨next + 1, rfl, rfl⟩
  | case3 next hlt word hword hsep hassign ih =>
    rw [hdrop hword, skipArguments_cons, if_neg hsep, if_pos hassign]
    exact ih
  | case4 next hlt word hword hsep hassign hoption =>
    rw [hdrop hword, skipArguments_cons, if_neg hsep, if_neg hassign, if_pos hoption]
    exact ⟨next, rfl, hdrop hword⟩
  | case5 next hlt word hword hsep hassign hoption hvalue ih =>
    rw [hdrop hword, skipArguments_cons, if_neg hsep, if_neg hassign, if_neg hoption,
      if_pos hvalue, List.tail_drop]
    exact ih
  | case6 next hlt word hword hsep hassign hoption hvalue ih =>
    rw [hdrop hword, skipArguments_cons, if_neg hsep, if_neg hassign, if_neg hoption,
      if_neg hvalue]
    exact ih
  | case7 next hlt =>
    refine ⟨next, rfl, ?_⟩
    rw [List.drop_of_length_le (Nat.not_lt.1 hlt)]
    rfl

/-- The outer loop reads words of the vector only. -/
theorem walkFrom_eq (argv : List CStr) (fuel depth index : ℕ) :
    walkFrom argv fuel depth index =
      match guestCommandLoop fuel depth (argv.drop index) with
      | some name => .command name
      | none => .null := by
  induction fuel generalizing depth index with
  | zero => rfl
  | succ fuel ih =>
    rw [walkFrom]
    by_cases hlt : index < argv.length
    · rw [if_pos hlt, List.getElem?_eq_getElem hlt, List.drop_eq_getElem_cons hlt]
      dsimp only [guestCommandLoop]
      by_cases hsep : argv[index] = str "--"
      · rw [if_pos hsep, if_pos hsep]
        exact ih depth (index + 1)
      · rw [if_neg hsep, if_neg hsep]
        cases hwrapper : autoFindWrapper (autoBasename argv[index]) with
        | none =>
          dsimp only
          by_cases hassign : autoIsAssignment argv[index] = true
          · rw [if_pos hassign, if_pos hassign]
            exact ih depth (index + 1)
          · rw [if_neg hassign, if_neg hassign]
        | some valueOptions =>
          dsimp only
          by_cases hdeep : maxWrappers < depth + 1
          · rw [if_pos hdeep, if_pos hdeep]
          · obtain ⟨n, hskip, hdrop⟩ := skipFrom_eq argv valueOptions (index + 1)
            rw [if_neg hdeep, if_neg hdeep, hskip, ← hdrop]
            dsimp only
            by_cases hend : argv.length ≤ n
            · rw [if_pos hend, List.drop_of_length_le hend, guestCommandLoop_nil]
            · rw [if_neg hend]
              exact ih (depth + 1) n
    · rw [if_neg hlt, List.drop_of_length_le (Nat.not_lt.1 hlt), guestCommandLoop_nil]

theorem neoprootAutoGuestCommand_eq (argv : List CStr) (hpos : 0 < start)
    (hlt : start < argv.length) : neoprootAutoGuestCommand argv start =
      match guestCommandLoop argv.length 0 (argv.drop start.toNat) with
      | some name => .command name
      | none => .null := by
  rw [neoprootAutoGuestCommand, if_neg (by omega), walkFrom_eq]

/-! ### One wrapper more -/

/-- An option stands in front of the command, with nothing but assignments before it. -/
def LeadsWithOption (words : List CStr) : Prop :=
  (words.dropWhile autoIsAssignment).head?.any (fun w => decide (IsOption w)) = true

instance (words : List CStr) : Decidable (LeadsWithOption words) :=
  inferInstanceAs (Decidable (_ = true))

/-- The arguments of a wrapper, and whether a separator ends them. -/
inductive Arguments (valueOptions : List CStr) : List CStr → Bool → Prop
  | none : Arguments valueOptions [] false
  | separator : Arguments valueOptions [str "--"] true
  | assignment {w : CStr} {args : List CStr} {closed : Bool} (h : autoIsAssignment w = true)
      (hargs : Arguments valueOptions args closed) : Arguments valueOptions (w :: args) closed
  | value {w value : CStr} {args : List CStr} {closed : Bool} (h : IsOption w)
      (hvalue : valueOptions.contains w = true) (hargs : Arguments valueOptions args closed) :
      Arguments valueOptions (w :: value :: args) closed
  | flag {w : CStr} {args : List CStr} {closed : Bool} (h : IsOption w)
      (hvalue : ¬ valueOptions.contains w = true) (hargs : Arguments valueOptions args closed) :
      Arguments valueOptions (w :: args) closed

/-- A command line that goes on with no option runs its word behind a wrapper. -/
theorem Designates.behind_open (h : Designates n words w) (hclash : NoClash words)
    (hopen : ¬ LeadsWithOption words) :
    ∃ rest, Behind valueOptions words rest ∧ rest ⊆ words ∧ Designates n rest w := by
  induction words with
  | nil => exact absurd rfl h.ne_nil
  | cons x ws ih =>
    by_cases hassign : autoIsAssignment x = true
    · rw [designates_assignment_iff hassign (hclash x (by simp) hassign)] at h
      rw [LeadsWithOption, List.dropWhile_cons_of_pos hassign] at hopen
      obtain ⟨rest, hbehind, hsubset, hrest⟩ := ih h hclash.tail hopen
      exact ⟨rest, .assignment hassign hbehind, List.subset_cons_of_subset x hsubset, hrest⟩
    · by_cases hsep : x = str "--"
      · subst hsep
        rw [designates_separator_iff] at h
        exact ⟨ws, .separator ws, List.subset_cons_self _ _, h⟩
      · have hoption : ¬ IsOption x := by
          intro hoption
          apply hopen
          rw [LeadsWithOption, List.dropWhile_cons_of_neg hassign]
          exact decide_eq_true hoption
        exact ⟨x :: ws, .word ws hsep hassign hoption, List.Subset.refl _, h⟩

/-- The command line behind the arguments of one wrapper more runs the same word. -/
theorem Designates.behind (h : Designates n words w) (hclash : NoClash words) {args : List CStr}
    {closed : Bool} (hargs : Arguments valueOptions args closed)
    (hopen : closed = true ∨ ¬ LeadsWithOption words) :
    ∃ rest, Behind valueOptions (args ++ words) rest ∧ rest ⊆ words ∧ Designates n rest w := by
  induction hargs with
  | none =>
    have hnot := hopen.resolve_left Bool.false_ne_true
    exact h.behind_open hclash hnot
  | separator => exact ⟨words, .separator words, List.Subset.refl _, h⟩
  | assignment hassign _ ih =>
    obtain ⟨rest, hbehind, hrest⟩ := ih hopen
    exact ⟨rest, .assignment hassign hbehind, hrest⟩
  | value hoption hvalue _ ih =>
    obtain ⟨rest, hbehind, hrest⟩ := ih hopen
    exact ⟨rest, .value hoption hvalue hbehind, hrest⟩
  | flag hoption hvalue _ ih =>
    obtain ⟨rest, hbehind, hrest⟩ := ih hopen
    exact ⟨rest, .flag hoption hvalue hbehind, hrest⟩

/-! ### The whole function -/

/-- The command line that starts at this index runs a command with this name, behind eight
wrappers at most. -/
def Runs (argv : List CStr) (start : ℤ) (name : CStr) : Prop :=
  0 < start ∧ start < argv.length ∧ ∃ n w, n ≤ maxWrappers ∧
    Designates n (argv.drop start.toNat) w ∧ autoBasename w = name

/-- What the walk has to do with the rule. -/
structure Follows (argv : List CStr) (start : ℤ) : Prop where
  bounded : neoprootAutoGuestCommand argv start ≠ .overread
  command : ∀ name, neoprootAutoGuestCommand argv start = .command name ↔ Runs argv start name
  null : neoprootAutoGuestCommand argv start = .null ↔ ¬ ∃ name, Runs argv start name
  through : 0 < start → start < argv.length → ∀ n w, n < maxWrappers →
    Designates n (argv.drop start.toNat) w → ∀ x valueOptions args closed, x ≠ str "--" →
      autoFindWrapper (autoBasename x) = some valueOptions →
      Arguments valueOptions args closed →
      (closed = true ∨ ¬ LeadsWithOption (argv.drop start.toNat)) →
        neoprootAutoGuestCommand
          (argv.take start.toNat ++ x :: (args ++ argv.drop start.toNat)) start =
            .command (autoBasename w)

theorem neoprootAutoGuestCommand_of_out {argv : List CStr}
    (h : ¬ (0 < start ∧ start < argv.length)) : neoprootAutoGuestCommand argv start = .null := by
  rw [neoprootAutoGuestCommand, if_pos (by omega)]

/-- The walk reads no word behind the end. -/
theorem neoprootAutoGuestCommand_cases (argv : List CStr) (start : ℤ) :
    neoprootAutoGuestCommand argv start = .null ∨
      ∃ name, neoprootAutoGuestCommand argv start = .command name := by
  by_cases hrange : 0 < start ∧ start < argv.length
  · rw [neoprootAutoGuestCommand_eq argv hrange.1 hrange.2]
    cases guestCommandLoop argv.length 0 (argv.drop start.toNat) with
    | none => exact .inl rfl
    | some name => exact .inr ⟨name, rfl⟩
  · exact .inl (neoprootAutoGuestCommand_of_out hrange)

theorem neoprootAutoGuestCommand_eq_command_iff {argv : List CStr}
    (hclash : NoClash (argv.drop start.toNat)) (name : CStr) :
    neoprootAutoGuestCommand argv start = .command name ↔ Runs argv start name := by
  by_cases hrange : 0 < start ∧ start < argv.length
  · have hlength : (argv.drop start.toNat).length ≤ argv.length := by
      rw [List.length_drop]
      omega
    have hiff := @guestCommandLoop_eq_some_iff _ name _ 0 hclash hlength (Nat.zero_le _)
    simp only [Nat.zero_add] at hiff
    rw [neoprootAutoGuestCommand_eq argv hrange.1 hrange.2, Runs, and_iff_right hrange.1,
      and_iff_right hrange.2, ← hiff]
    cases guestCommandLoop argv.length 0 (argv.drop start.toNat) <;> simp
  · rw [neoprootAutoGuestCommand_of_out hrange]
    constructor
    · intro h
      cases h
    · intro h
      exact absurd ⟨h.1, h.2.1⟩ hrange

/-- One wrapper more. -/
theorem neoprootAutoGuestCommand_through {pre line : List CStr} (hpre : pre ≠ [])
    (hclash : NoClash line) (hn : n < maxWrappers) (hline : Designates n line w)
    (hsep : x ≠ str "--") (hwrapper : autoFindWrapper (autoBasename x) = some valueOptions)
    {args : List CStr} {closed : Bool} (hargs : Arguments valueOptions args closed)
    (hopen : closed = true ∨ ¬ LeadsWithOption line) :
    neoprootAutoGuestCommand (pre ++ x :: (args ++ line)) pre.length =
      .command (autoBasename w) := by
  obtain ⟨rest, hbehind, hsubset, hrest⟩ := hline.behind hclash hargs hopen
  have hpos := List.length_pos_iff.2 hpre
  have hdrop : (pre ++ x :: (args ++ line)).drop pre.length = x :: (args ++ line) :=
    List.drop_left
  have hlength : (pre ++ x :: (args ++ line)).length = pre.length + (args ++ line).length + 1 := by
    simp only [List.length_append, List.length_cons]
    omega
  have hshort : rest.length ≤ (args ++ line).length := by
    rw [← hbehind.skipArguments_eq]
    exact length_skipArguments_le _ _
  have hloop := (@guestCommandLoop_eq_some_iff rest (autoBasename w)
    (pre.length + (args ++ line).length) 1 (fun v hv => hclash v (hsubset hv)) (by omega)
    (by decide)).2 ⟨n, w, by omega, hrest, rfl⟩
  rw [neoprootAutoGuestCommand_eq _ (by omega) (by rw [hlength]; omega), Int.toNat_natCast, hdrop,
    hlength]
  dsimp only [guestCommandLoop]
  rw [if_neg hsep, hwrapper]
  dsimp only
  rw [if_neg (by decide), hbehind.skipArguments_eq, Nat.zero_add, hloop]

/-- **The walk follows the rule**, for words of which none is both an assignment and called like
a wrapper. -/
theorem guestCommand_follows (argv : List CStr) (start : ℤ)
    (hclash : NoClash (argv.drop start.toNat)) : Follows argv start := by
  have hcommand := neoprootAutoGuestCommand_eq_command_iff hclash
  refine ⟨?_, hcommand, ?_, ?_⟩
  · obtain hnull | ⟨name, hname⟩ := neoprootAutoGuestCommand_cases argv start
    · rw [hnull]
      exact nofun
    · rw [hname]
      exact nofun
  · constructor
    · rintro hnull ⟨name, hruns⟩
      rw [(hcommand name).2 hruns] at hnull
      cases hnull
    · intro hnone
      apply (neoprootAutoGuestCommand_cases argv start).resolve_right
      rintro ⟨name, hname⟩
      exact hnone ⟨name, (hcommand name).1 hname⟩
  · intro hpos hlt n w hn hline x valueOptions args closed hsep hwrapper hargs hopen
    have hlength : (argv.take start.toNat).length = start.toNat := by
      rw [List.length_take]
      omega
    have hpre : argv.take start.toNat ≠ [] := by
      rw [← List.length_pos_iff, hlength]
      omega
    have hthrough := neoprootAutoGuestCommand_through hpre hclash hn hline hsep hwrapper hargs hopen
    rwa [hlength, Int.toNat_of_nonneg (by omega)] at hthrough

/-- `env docker`, behind the name of the program. -/
theorem guestCommand_follows_env :
    neoprootAutoGuestCommand [str "neoproot", str "env", str "docker"] 1 =
      .command (str "docker") := by
  have hfollows := guestCommand_follows [str "neoproot", str "docker"] 1 (by decide)
  exact hfollows.through (by decide) (by decide) 0 (str "docker") (by decide)
    (.command [] (by decide) (by decide) (by decide)) (str "env") _ [] false (by decide) rfl .none
    (.inr (by decide))

/-- A word with a dash is a command of its own, and an option behind a wrapper. -/
theorem option_behind_wrapper :
    ¬ ∀ (line : List CStr) (w x : CStr), Designates 0 line w →
      (autoFindWrapper (autoBasename x)).isSome →
        neoprootAutoGuestCommand (str "neoproot" :: x :: line) 1 =
          neoprootAutoGuestCommand (str "neoproot" :: line) 1 := by
  intro h
  have hsame := h [str "-x", str "docker"] (str "-x") (str "env")
    (.command _ (by decide) (by decide) (by decide)) (by decide)
  rw [neoprootAutoGuestCommand_eq _ (by decide) (by decide),
    neoprootAutoGuestCommand_eq _ (by decide) (by decide)] at hsame
  exact absurd hsame (by decide)

end NeoProot.Cli
