import NeoProot.Basic
import NeoProot.Lib.FirstMatch
import NeoProot.Lib.Spelling

/-!
# The search for a command

`which` goes through the components of `PATH` with a cursor: it tests the name of the
command behind a component, and moves behind the character that ends the component.
Behind the last component this character is the end of the string.

## Main definitions

* `which`, `searchPath` — the search.
* `expected` — the first component that holds the command.
* `Searchable` — the searches that the cursor does right.
* `which_iff` — it does no other search right.
-/

namespace NeoProot.Which
open Segments FirstMatch

variable {c : CStr} {cs : List CStr}

/-! ### The search -/

/-- What is read of a file's mode: `S_ISREG` and `S_IXUSR`. -/
structure Mode where
  isRegular : Bool
  ownerExecutes : Bool

/-- The file system under the search. -/
structure Host where
  /-- `realpath2`: whether it returns zero, and what `host_path` holds then. -/
  realpath2 (path : CStr) (derefFinal : Bool) : Bool × CStr
  /-- `stat`, if it succeeds. -/
  stat (hostPath : CStr) : Option Mode

/-- What comes of a search. -/
inductive Result
  /-- The host path of the command, and the component of `PATH` it was found in. -/
  | found (component : Option ℕ) (hostPath : CStr)
  | notRegular
  | notExecutable
  | notFound
  /-- The cursor reads behind the end of `PATH`. -/
  | overread
  /-- The name is longer than the buffer it is written to. -/
  | overflow
  deriving DecidableEq, Repr

namespace Host

variable (host : Host)

/-- The file is regular and executable: its host path. -/
def executable (path : CStr) : Option CStr :=
  let (ok, hostPath) := host.realpath2 path true
  if ok then
    match host.stat hostPath with
    | none => none
    | some mode => if mode.isRegular ∧ mode.ownerExecutes then some hostPath else none
  else none

/-- The loop of `which`: the component at the cursor has the number `i`. -/
def searchPath (command : CStr) (i : ℕ) (cursor : CStr) : Result :=
  let len := (cursor.takeWhile (· ≠ ':')).length
  -- `cursor += len + 1`, and the character there
  let next :=
    if _h : cursor.length ≤ len then .overread
    else if cursor.length = len + 1 then .notFound
    else searchPath command (i + 1) (cursor.drop (len + 1))
  if pathMax ≤ len then next
  else
    let path := if len = 0 then ['.'] else cursor.take len
    -- `path[len] = '/'`, and `strcpy`
    let path := path.take len ++ '/' :: command
    if pathMax ≤ path.length then .overflow
    else
      match host.executable path with
      | some hostPath => .found (some i) hostPath
      | none => next
termination_by cursor.length
decreasing_by
  simp only [List.length_drop]
  omega

/-- A command with a slash is not searched for. -/
def explicit (command : CStr) : Result :=
  let (ok, hostPath) := host.realpath2 command true
  if ok then
    match host.stat hostPath with
    | none => .notFound
    | some mode =>
      if ¬ mode.isRegular then .notRegular
      else if ¬ mode.ownerExecutes then .notExecutable
      else .found none (host.realpath2 command false).2
  else .notFound

/-- `which`, where `env` is the `PATH` of the environment. -/
def which (paths env : Option CStr) (command : CStr) : Result :=
  if '/' ∈ command then host.explicit command
  else
    match paths.or env with
    | none => .notFound
    | some [] => .notFound
    | some (c :: cs) => host.searchPath command 0 (c :: cs)

/-! ### The components of `PATH` -/

/-- The directory of a component. -/
def directory (component : CStr) : CStr := if component = [] then ['.'] else component

/-- The name of the command in the directory of a component. -/
def joined (command component : CStr) : CStr := directory component ++ '/' :: command

/-- The directory of the component holds the command, and its name there fits. -/
def probe (command component : CStr) : Option CStr :=
  if (joined command component).length < pathMax then
    host.executable (joined command component)
  else none

/-- The first component that holds the command. -/
def expected (command : CStr) : ℕ → List CStr → Result
  | _, [] => .notFound
  | i, c :: cs =>
    match host.probe command c with
    | some hostPath => .found (some i) hostPath
    | none => expected command (i + 1) cs

/-- The components that the cursor gets to. -/
def reached (components : List CStr) : List CStr :=
  if components.getLast? = some [] then components.dropLast else components

/-- The buffer and the file name are those of the component. -/
structure TestsRight (command component : CStr) : Prop where
  fits : component.length < pathMax → (component ++ '/' :: command).length < pathMax
  empty : component = [] → host.executable ('/' :: command) = host.probe command []

/-- The searches that are done right. -/
structure Searchable (command : CStr) (components : List CStr) : Prop where
  tests : ReadsTo (fun c => (host.probe command c).isSome) (host.TestsRight command)
    (reached components)
  ends : (∃ c ∈ components.dropLast, (host.probe command c).isSome) ∨
    (components.getLast? = some [] ↔ ∀ c ∈ components.getLast?, host.probe command c = none)

/-! ### The loop on components -/

/-- The loop on the components at the cursor. -/
def visit (command : CStr) : ℕ → List CStr → Result
  | _, [] => .overread
  | i, c :: cs =>
    let next := if cs = [[]] then .notFound else visit command (i + 1) cs
    if pathMax ≤ c.length then next
    else if pathMax ≤ (c ++ '/' :: command).length then .overflow
    else
      match host.executable (c ++ '/' :: command) with
      | some hostPath => .found (some i) hostPath
      | none => next

variable {host} {command : CStr}

theorem takeWhile_component (hc : ':' ∉ c) (cs : List CStr) :
    (c ++ flat ':' cs).takeWhile (· ≠ ':') = c := by
  have hall : ∀ a ∈ c, (decide (a ≠ ':')) = true := by
    intro a ha
    simp only [decide_eq_true_eq]
    intro h
    exact hc (h ▸ ha)
  rw [List.takeWhile_append_of_pos hall]
  cases cs with
  | nil => simp
  | cons d cs => simp

/-- What the buffer holds of a component. -/
theorem take_buffer (c more : CStr) :
    (if c.length = 0 then ['.'] else (c ++ more).take c.length).take c.length = c := by
  cases c with
  | nil => rfl
  | cons a c => simp

theorem flat_eq_nil_iff (cs : List CStr) : flat ':' cs = [] ↔ cs = [] := by
  cases cs <;> simp

/-- The cursor goes from component to component. -/
theorem searchPath_eq_visit {c : CStr} {cs : List CStr} (h : SepFree ':' (c :: cs)) (i : ℕ) :
    host.searchPath command i (c ++ flat ':' cs) = host.visit command i (c :: cs) := by
  induction cs generalizing c i with
  | nil =>
    rw [searchPath.eq_def, visit, takeWhile_component (h c (by simp))]
    simp only [take_buffer]
    simp [visit]
  | cons d cs ih =>
    have htail : SepFree ':' (d :: cs) := fun e he => h e (List.mem_cons_of_mem c he)
    have hend : (c ++ flat ':' (d :: cs)).length = c.length + 1 ↔ d :: cs = [[]] := by
      have hlength : (c ++ flat ':' (d :: cs)).length =
          c.length + 1 + (d ++ flat ':' cs).length := by simp; omega
      rw [hlength, Nat.add_eq_left, List.length_eq_zero_iff, List.append_eq_nil_iff,
        flat_eq_nil_iff, List.cons.injEq]
    have hinside : ¬ (c ++ flat ':' (d :: cs)).length ≤ c.length := by simp
    have hdrop : (c ++ flat ':' (d :: cs)).drop (c.length + 1) = d ++ flat ':' cs := by
      simp [← List.drop_drop]
    rw [searchPath.eq_def, visit, takeWhile_component (h c (by simp))]
    simp only [take_buffer, hdrop, ih htail, hend, hinside, dif_neg, not_false_eq_true]

/-! ### One component -/

theorem probe_of_ne (hc : c ≠ []) :
    host.probe command c =
      if (c ++ '/' :: command).length < pathMax then host.executable (c ++ '/' :: command)
      else none := by
  rw [probe, joined, directory, if_neg hc]

/-- A component whose test is right is passed unless it holds the command. -/
theorem visit_cons (hright : host.TestsRight command c) (i : ℕ) (cs : List CStr) :
    host.visit command i (c :: cs) =
      match host.probe command c with
      | some h => .found (some i) h
      | none => if cs = [[]] then .notFound else host.visit command (i + 1) cs := by
  rw [visit]
  by_cases hlong : pathMax ≤ c.length
  · have hne : c ≠ [] := by
      rintro rfl
      exact absurd hlong (by decide)
    have hprobe : host.probe command c = none := by
      rw [probe_of_ne hne, if_neg]
      simp only [List.length_append, List.length_cons]
      omega
    rw [if_pos hlong, hprobe]
  · have hfits := hright.fits (Nat.lt_of_not_le hlong)
    have htest : host.executable (c ++ '/' :: command) = host.probe command c := by
      by_cases hc : c = []
      · rw [hc]
        exact hright.empty hc
      · rw [probe_of_ne hc, if_pos hfits]
    rw [if_neg hlong, if_neg (Nat.not_le.2 hfits), htest]

/-- A component that is reported is not one that the search has passed. -/
theorem visit_component {i j : ℕ} {h : CStr}
    (hvisit : host.visit command i cs = .found (some j) h) : i ≤ j := by
  induction cs generalizing i with
  | nil => cases hvisit
  | cons c cs ih =>
    have hnext : (if cs = [[]] then Result.notFound else host.visit command (i + 1) cs) =
        .found (some j) h → i ≤ j := by
      intro heq
      split at heq
      · cases heq
      · exact (Nat.le_succ i).trans (ih heq)
    simp only [visit] at hvisit
    split at hvisit
    · exact hnext hvisit
    · split at hvisit
      · cases hvisit
      · split at hvisit
        · cases hvisit
          exact Nat.le_refl _
        · exact hnext hvisit

theorem expected_component {i j : ℕ} {h : CStr}
    (hexpected : host.expected command i cs = .found (some j) h) : i ≤ j := by
  induction cs generalizing i with
  | nil => cases hexpected
  | cons c cs ih =>
    rw [expected] at hexpected
    split at hexpected
    · cases hexpected
      exact Nat.le_refl _
    · exact (Nat.le_succ i).trans (ih hexpected)

theorem expected_ne (i : ℕ) (cs : List CStr) :
    host.expected command i cs ≠ .overread ∧ host.expected command i cs ≠ .overflow := by
  induction cs generalizing i with
  | nil => simp [expected]
  | cons c cs ih =>
    rw [expected]
    cases host.probe command c with
    | none => exact ih (i + 1)
    | some h => simp

/-- A wrong test makes the search wrong. -/
theorem visit_ne (hwrong : ¬ host.TestsRight command c) (i : ℕ) (cs : List CStr) :
    host.visit command i (c :: cs) ≠ host.expected command i (c :: cs) := by
  by_cases hfits : c.length < pathMax → (c ++ '/' :: command).length < pathMax
  · have hempty : ¬ (c = [] → host.executable ('/' :: command) = host.probe command []) :=
      fun h => hwrong ⟨hfits, h⟩
    obtain ⟨rfl, hdiffer⟩ := Classical.not_imp.1 hempty
    have hshort : ([] : CStr).length < pathMax := by decide
    rw [visit, expected, if_neg (Nat.not_le.2 hshort), if_neg (Nat.not_le.2 (hfits hshort)),
      List.nil_append]
    intro heq
    cases hroot : host.executable ('/' :: command) with
    | some h =>
      cases hdot : host.probe command [] with
      | some h' =>
        rw [hroot, hdot] at heq hdiffer
        injection heq with _ hsame
        exact hdiffer (congrArg some hsame)
      | none =>
        rw [hroot, hdot] at heq
        exact absurd (expected_component heq.symm) (Nat.not_succ_le_self i)
    | none =>
      cases hdot : host.probe command [] with
      | some h' =>
        rw [hroot, hdot] at heq
        dsimp only at heq
        split at heq
        · cases heq
        · exact absurd (visit_component heq) (Nat.not_succ_le_self i)
      | none => exact hdiffer (hroot.trans hdot.symm)
  · obtain ⟨hshort, hlong⟩ := Classical.not_imp.1 hfits
    rw [visit, if_neg (Nat.not_le.2 hshort), if_pos (Nat.not_lt.1 hlong)]
    exact (expected_ne i (c :: cs)).2.symm

/-! ### Right and wrong searches -/

theorem searchable_empty : host.Searchable command [[]] ↔ host.probe command [] = none := by
  constructor
  · intro h
    have hends := h.ends
    simpa using hends
  · intro h
    exact ⟨trivial, .inr (by simpa using h)⟩

theorem searchable_singleton (hc : c ≠ []) :
    host.Searchable command [c] ↔
      host.TestsRight command c ∧ host.probe command c ≠ none := by
  have hreached : reached [c] = [c] := by simp [reached, hc]
  constructor
  · intro h
    have htests := h.tests
    have hends := h.ends
    rw [hreached] at htests
    refine ⟨htests.1, ?_⟩
    simpa [hc] using hends
  · intro ⟨htests, hprobe⟩
    refine ⟨?_, .inr ?_⟩
    · rw [hreached]
      exact ⟨htests, fun _ => trivial⟩
    · simpa [hc] using hprobe

theorem searchable_cons (c d : CStr) (cs : List CStr) :
    host.Searchable command (c :: d :: cs) ↔ host.TestsRight command c ∧
      (host.probe command c = none → host.Searchable command (d :: cs)) := by
  have hreached : reached (c :: d :: cs) = c :: reached (d :: cs) := by
    rw [reached, reached, List.getLast?_cons_cons, List.dropLast_cons_cons]
    split <;> rfl
  have hends : (∃ e ∈ (c :: d :: cs).dropLast, (host.probe command e).isSome) ↔
      (host.probe command c).isSome ∨ ∃ e ∈ (d :: cs).dropLast, (host.probe command e).isSome := by
    rw [List.dropLast_cons_cons]
    simp
  constructor
  · intro h
    have htests := h.tests
    rw [hreached] at htests
    refine ⟨htests.1, fun hnone => ⟨htests.2 (by simp [hnone]), ?_⟩⟩
    have hlast := h.ends
    rwa [hends, hnone, List.getLast?_cons_cons, Option.isSome_none, Bool.false_eq_true,
      false_or] at hlast
  · intro ⟨hright, hrest⟩
    refine ⟨?_, ?_⟩
    · rw [hreached]
      refine ⟨hright, fun hnone => (hrest ?_).tests⟩
      simpa using hnone
    · rw [hends, List.getLast?_cons_cons]
      by_cases hnone : host.probe command c = none
      · rw [or_assoc]
        exact .inr (hrest hnone).ends
      · exact .inl (.inl (Option.isSome_iff_ne_none.2 hnone))

/-- The loop on components against the first component that holds the command. -/
theorem visit_iff (hne : c :: cs ≠ [[]]) (i : ℕ) :
    host.visit command i (c :: cs) = host.expected command i (c :: cs) ↔
      host.Searchable command (c :: cs) := by
  induction cs generalizing c i with
  | nil =>
    have hc : c ≠ [] := fun h => hne (by rw [h])
    rw [searchable_singleton hc]
    by_cases hright : host.TestsRight command c
    · rw [visit_cons hright, expected, and_iff_right hright]
      cases host.probe command c with
      | some h => simp
      | none => simp [visit, expected]
    · simp only [hright, false_and, iff_false]
      exact visit_ne hright i []
  | cons d cs ih =>
    rw [searchable_cons]
    by_cases hright : host.TestsRight command c
    · rw [visit_cons hright, expected, and_iff_right hright]
      cases hprobe : host.probe command c with
      | some h => simp
      | none =>
        rw [imp_iff_right rfl]
        by_cases hlast : d :: cs = [[]]
        · -- the last component is empty: the loop ends without it
          rw [if_pos hlast, hlast, searchable_empty, expected]
          cases host.probe command [] <;> simp [expected]
        · rw [if_neg hlast]
          exact ih hlast (i + 1)
    · simp only [hright, false_and, iff_false]
      exact visit_ne hright i (d :: cs)

/-- The search reports the first component of `PATH` that holds the command, and reads
and writes nothing else, if the search can end inside of `PATH`, no name is longer than the
buffer, and no empty component is found to be another directory. -/
theorem which_iff {paths env : Option CStr} {path : CStr} (hpath : paths.or env = some path)
    (hcommand : '/' ∉ command) :
    host.which paths env command = host.expected command 0 (pieces ':' path) ↔
      host.Searchable command (pieces ':' path) := by
  rw [which, if_neg hcommand, hpath]
  cases path with
  | nil =>
    rw [pieces_nil, searchable_empty, expected]
    cases host.probe command [] <;> simp [expected]
  | cons a as =>
    have hcut := cut_flat ':' (a :: as)
    have hne : pieces ':' (a :: as) ≠ [[]] := by
      intro h
      rw [pieces, List.cons.injEq] at h
      rw [h.1, h.2] at hcut
      cases hcut
    have hloop := @searchPath_eq_visit host command _ _ (sepFree_pieces ':' (a :: as)) 0
    rw [hcut] at hloop
    rw [pieces] at hne ⊢
    dsimp only
    rw [hloop, visit_iff hne 0]

/-- A command that is not there, with the usual `PATH`: the cursor leaves the string. -/
theorem which_leaves_path :
    ¬ ∀ (host : Host) (paths env : Option CStr) (path command : CStr), paths.or env = some path →
      '/' ∉ command → host.which paths env command = host.expected command 0 (pieces ':' path) := by
  intro h
  let nothing : Host := ⟨fun path _ => (false, path), fun _ => none⟩
  have hsearch := h nothing (some (str "/bin")) none (str "/bin") (str "sh") rfl (by decide)
  have hloop := @searchPath_eq_visit nothing (str "sh") (str "/bin") []
    (by simp [SepFree, str]) 0
  rw [flat_nil, List.append_nil] at hloop
  have hwhich : nothing.which (some (str "/bin")) none (str "sh") =
      nothing.searchPath (str "sh") 0 (str "/bin") := rfl
  rw [hwhich, hloop] at hsearch
  exact absurd hsearch (by decide)

/-- A file system with one command. -/
def onlyShell : Host where
  realpath2 path _ := (true, path)
  stat path := if path = str "/bin/sh" then some ⟨true, true⟩ else none

/-- The second component of `:/bin`. -/
theorem which_iff_second :
    onlyShell.which (some (str ":/bin")) none (str "sh") = .found (some 1) (str "/bin/sh") := by
  have hright : ∀ c ∈ [[], str "/bin"], onlyShell.TestsRight (str "sh") c := by
    intro c hc
    have hfits : (c ++ '/' :: str "sh").length < pathMax ∧
        onlyShell.executable ('/' :: str "sh") = onlyShell.probe (str "sh") [] := by
      obtain rfl | hc := List.mem_cons.1 hc
      · decide
      · rw [List.mem_singleton.1 hc]
        decide
    exact ⟨fun _ => hfits.1, fun _ => hfits.2⟩
  have hsearchable : onlyShell.Searchable (str "sh") (pieces ':' (str ":/bin")) :=
    ⟨⟨hright _ (by decide), fun _ => ⟨hright _ (by decide), fun _ => trivial⟩⟩, .inr (by decide)⟩
  rw [(@which_iff onlyShell (str "sh") (some (str ":/bin")) none _ rfl (by decide)).2 hsearchable]
  decide

end Host

end NeoProot.Which
