import NeoProot.Lib.ShellSyntax
import Mathlib.Tactic.SplitIfs

/-!
# The runs of shell scripts

A shell has variables, positional parameters and functions, and runs commands of the world
around it, which answers each with an exit status or never returns.  Calls of functions and
rounds of loops take fuel.

Redirections succeed, only `"$@"` stands for several fields, and a parameter outside of
quotations is not split.

## Main definitions

* `World`, `Event`, `State` — what answers, what is run, and who runs it.
* `expand` — the fields of a word.
* `run`, `runAll` — the run of a command and of a list of them.
* `Script.Plain` — a script without definitions whose commands all have a property.
-/

namespace NeoProot.Shell

variable {c : Simple} {name : List Char} {rest : List (List Char)} {a : Script}

/-- A command with a name that is no function, whether the shell runs it itself or not: its
fields, the exported variables, and the files of its redirections. -/
structure Event where
  words : List (List Char)
  env : List (List Char × List Char)
  files : List (List Char)
  deriving DecidableEq, Repr

variable {ev : Event}

/-- What answers the shell, after the commands it has run. -/
structure World where
  /-- The exit status; none for a command that does not return. -/
  answer : List Event → Event → Option ℕ
  readLine : List Event → Option (List Char)

/-- A shell. -/
structure State where
  vars : List (List Char × List Char)
  exported : List (List Char)
  args : List (List Char)
  funcs : List (List Char × Script)
  status : ℕ
  trace : List Event
  deriving DecidableEq, Repr

variable {s : State}

inductive Outcome
  | done
  | returned
  | exited
  | stopped
  deriving DecidableEq, Repr

structure Result where
  outcome : Outcome
  shell : State
  deriving DecidableEq, Repr

variable {r : Result} {f : State → Result}

namespace State

/-- A shell at the start of a script. -/
def start : State := ⟨[], [], [], [], 0, []⟩

/-- The variables that a command gets. -/
def env (s : State) : List (List Char × List Char) :=
  s.exported.filterMap fun name => (s.vars.lookup name).map fun value => (name, value)

/-- The command is run. -/
def log (s : State) (ev : Event) : State := { s with trace := s.trace ++ [ev] }

/-- The value of a parameter. -/
def param (s : State) (name : List Char) : List Char :=
  if name = ['?'] then Nat.toDigits 10 s.status
  else if name = ['1'] then s.args.head?.getD []
  else (s.vars.lookup name).getD []

end State

/-! ### Expansion -/

/-- The characters of a piece. -/
def pieceText (s : State) : Piece → List Char
  | .lit c | .quoted c => [c]
  | .quotes => []
  | .param name _ => s.param name

/-- The characters of a word. -/
def wordText (s : State) (w : Word) : List Char := w.flatMap (pieceText s)

/-- The fields of a word. -/
def expand (s : State) (w : Word) : List (List Char) :=
  if w = [.quotes, .param ['@'] true] then s.args
  else if wordText s w = [] ∧ Piece.quotes ∉ w then []
  else [wordText s w]

/-- A quoted string has its own characters. -/
theorem wordText_quoteWord (s : State) (value : List Char) :
    wordText s (quoteWord value) = value := by
  have hpiece : ∀ c, (if c = '\'' then [Piece.quoted c, .quotes] else [.quoted c]).flatMap
      (pieceText s) = [c] := by
    intro c
    split_ifs
    all_goals rfl
  rw [wordText, quoteWord, List.flatMap_cons, List.flatMap_assoc]
  simp only [hpiece, List.flatMap_singleton']
  rfl

/-- A quoted string is one field, itself. -/
theorem expand_quoteWord (s : State) (value : List Char) :
    expand s (quoteWord value) = [value] := by
  have hnot : quoteWord value ≠ [.quotes, .param ['@'] true] := by
    cases value with
    | nil => simp [quoteWord]
    | cons c value =>
      rw [quoteWord, List.flatMap_cons]
      split_ifs <;> simp
  have hquotes : Piece.quotes ∈ quoteWord value := List.mem_cons_self
  rw [expand, if_neg hnot, if_neg fun h => h.2 hquotes, wordText_quoteWord]

/-! ### Runs -/

/-- The value of a number in decimal. -/
def numberOf (digits : List Char) : ℕ := digits.foldl (fun n c => 10 * n + (c.toNat - '0'.toNat)) 0

/-- The files that redirections name; `>&` names a descriptor. -/
def filesOf (s : State) (redirs : List Redirection) : List (List Char) :=
  (redirs.filter fun r => r.op ≠ .greatAnd).map fun r => wordText s r.target

/-- A command of the world. -/
def runEvent (w : World) (s : State) (ev : Event) : Result :=
  match w.answer s.trace ev with
  | none => ⟨.stopped, s.log ev⟩
  | some status => ⟨.done, { s.log ev with status := status }⟩

/-- The special built-in commands, where `name` is one of them. -/
def runSpecial (s : State) (name : List Char) (rest : List (List Char)) : Option Result :=
  if name = [':'] then some ⟨.done, { s with status := 0 }⟩
  else if name = "exit".toList then some ⟨.exited, s⟩
  else if name = "return".toList then
    some ⟨.returned, { s with status := (rest.head?.map numberOf).getD s.status }⟩
  else if name = "export".toList then
    some ⟨.done, { s with exported := s.exported ++ rest, status := 0 }⟩
  else if name = "unset".toList then
    some ⟨.done, { s with
      vars := s.vars.filter fun v => ! rest.contains v.1
      exported := s.exported.filter fun v => ! rest.contains v
      status := 0 }⟩
  else if name = "set".toList ∧ rest.head? = some "--".toList then
    some ⟨.done, { s with args := rest.tail, status := 0 }⟩
  else none

/-- `read -r name`. -/
def runRead (w : World) (s : State) (rest : List (List Char)) : Result :=
  match w.readLine s.trace with
  | none => ⟨.done, { s with status := 1 }⟩
  | some line =>
    ⟨.done, { s with vars := (rest.getLast?.getD [], line) :: s.vars, status := 0 }⟩

/-- A function of the shell.  The arguments of the caller come back. -/
def runFunction (call : Script → State → Result) (s : State) (body : Script)
    (rest : List (List Char)) : Result :=
  let r := call body { s with args := rest }
  ⟨if r.outcome = .returned then .done else r.outcome, { r.shell with args := s.args }⟩

/-- A simple command. -/
def runSimple (w : World) (call : Script → State → Result) (c : Simple) (s : State) : Result :=
  let values := c.assigns.map fun (name, word) => (name, wordText s word)
  match c.words.flatMap (expand s) with
  | [] => ⟨.done, { s with vars := values.reverse ++ s.vars, status := 0 }⟩
  | name :: rest =>
    let ev : Event := ⟨name :: rest, values.reverse ++ s.env, filesOf s c.redirs⟩
    match runSpecial (s.log ev) name rest with
    | some r => r
    | none =>
      match s.funcs.lookup name with
      | some body => runFunction call s body rest
      | none => if name = "read".toList then runRead w (s.log ev) rest else runEvent w s ev

/-- What follows a command that is done. -/
def Result.next (r : Result) (f : State → Result) : Result :=
  match r.outcome with
  | .done => f r.shell
  | _ => r

/-- The run of a command; `call` runs functions and the next rounds of loops. -/
def exec (w : World) (call : Script → State → Result) : Script → State → Result
  | .skip, s => ⟨.done, s⟩
  | .simple c, s => runSimple w call c s
  | .seq a b, s => (exec w call a s).next (exec w call b)
  | .and a b, s =>
    (exec w call a s).next fun s => if s.status = 0 then exec w call b s else ⟨.done, s⟩
  | .or a b, s =>
    (exec w call a s).next fun s => if s.status = 0 then ⟨.done, s⟩ else exec w call b s
  | .not a, s =>
    (exec w call a s).next fun s => ⟨.done, { s with status := if s.status = 0 then 1 else 0 }⟩
  | .ite c t e, s =>
    (exec w call c s).next fun s => if s.status = 0 then exec w call t s else exec w call e s
  | .loop c b, s =>
    (exec w call c s).next fun s =>
      if s.status = 0 then (exec w call b s).next (call (.loop c b)) else ⟨.done, s⟩
  | .redirected a _, s => exec w call a s
  | .define name body, s => ⟨.done, { s with funcs := (name, body) :: s.funcs, status := 0 }⟩

/-- The run of a command with fuel. -/
def run (w : World) : ℕ → Script → State → Result
  | 0 => exec w fun _ s => ⟨.stopped, s⟩
  | n + 1 => exec w (run w n)

/-- The run of a list of commands. -/
def runAll (w : World) (n : ℕ) : List Script → State → Result
  | [], s => ⟨.done, s⟩
  | a :: as, s => (run w n a s).next (runAll w n as)

variable {w : World} {call : Script → State → Result}

@[simp] theorem Result.next_done (s : State) (f : State → Result) :
    (Result.mk .done s).next f = f s := rfl

theorem Result.next_next (r : Result) (f g : State → Result) :
    (r.next f).next g = r.next fun s => (f s).next g := by
  obtain ⟨outcome, s⟩ := r
  cases outcome with
  | done | returned | exited | stopped => rfl

/-- A list that is done has done its first part. -/
theorem Result.next_eq_done (h : r.next f = ⟨.done, s⟩) :
    ∃ t, r = ⟨.done, t⟩ ∧ f t = ⟨.done, s⟩ := by
  obtain ⟨outcome, t⟩ := r
  cases outcome with
  | done => exact ⟨t, rfl, h⟩
  | returned | exited | stopped => cases h

theorem Result.eq_of_done (h : r.outcome = .done) : r = ⟨.done, r.shell⟩ := by
  obtain ⟨outcome, s⟩ := r
  rw [← h]

theorem runAll_cons (n : ℕ) (a : Script) (as : List Script) (s : State) :
    runAll w n (a :: as) s = (run w n a s).next (runAll w n as) := rfl

theorem runAll_append (n : ℕ) (as bs : List Script) (s : State) :
    runAll w n (as ++ bs) s = (runAll w n as s).next (runAll w n bs) := by
  induction as generalizing s with
  | nil => rfl
  | cons a as ih =>
    rw [List.cons_append, runAll_cons, runAll_cons]
    obtain ⟨outcome, t⟩ := run w n a s
    cases outcome with
    | done => exact ih t
    | returned | exited | stopped => rfl

theorem run_succ (n : ℕ) (a : Script) : run w (n + 1) a = exec w (run w n) a := rfl

/-- With any fuel a command is run by some way to run functions. -/
theorem exists_run (n : ℕ) : ∃ call, run w n = exec w call := by
  cases n with
  | zero => exact ⟨_, rfl⟩
  | succ n => exact ⟨_, rfl⟩

theorem run_simple (n : ℕ) (c : Simple) (s : State) :
    ∃ call, run w n (.simple c) s = runSimple w call c s := by
  obtain ⟨call, hcall⟩ := @exists_run w n
  exact ⟨call, by rw [hcall, exec]⟩

theorem run_define (n : ℕ) (name : List Char) (body : Script) (s : State) :
    run w n (.define name body) s =
      ⟨.done, { s with funcs := (name, body) :: s.funcs, status := 0 }⟩ := by
  obtain ⟨call, hcall⟩ := @exists_run w n
  rw [hcall, exec]

/-! ### What has been run -/

theorem runSimple_trace (hcall : ∀ a s, s.trace <+: (call a s).shell.trace) (c : Simple)
    (s : State) : s.trace <+: (runSimple w call c s).shell.trace := by
  unfold runSimple
  dsimp only
  split
  · exact List.prefix_refl _
  · rename_i name rest _
    split
    · rename_i r hspecial
      unfold runSpecial at hspecial
      split_ifs at hspecial
      all_goals
        cases hspecial
        exact List.prefix_append _ _
    · split
      · rename_i body _
        exact hcall body { s with args := rest }
      · split
        · unfold runRead
          split
          all_goals exact List.prefix_append _ _
        · unfold runEvent
          split
          all_goals exact List.prefix_append _ _

theorem next_trace (h : s.trace <+: r.shell.trace)
    (hf : ∀ t : State, t.trace <+: (f t).shell.trace) : s.trace <+: (r.next f).shell.trace := by
  obtain ⟨outcome, t⟩ := r
  cases outcome with
  | done => exact h.trans (hf t)
  | returned | exited | stopped => exact h

/-- A run adds to what has been run. -/
theorem exec_trace (hcall : ∀ a s, s.trace <+: (call a s).shell.trace) (a : Script) (s : State) :
    s.trace <+: (exec w call a s).shell.trace := by
  induction a generalizing s with
  | skip => exact List.prefix_refl _
  | simple c => exact runSimple_trace hcall c s
  | seq a b iha ihb => exact next_trace (iha s) ihb
  | and a b iha ihb =>
    refine next_trace (iha s) fun t => ?_
    split_ifs
    · exact ihb t
    · exact List.prefix_refl _
  | or a b iha ihb =>
    refine next_trace (iha s) fun t => ?_
    split_ifs
    · exact List.prefix_refl _
    · exact ihb t
  | not a iha => exact next_trace (iha s) fun t => List.prefix_refl _
  | ite c t e ihc iht ihe =>
    refine next_trace (ihc s) fun u => ?_
    split_ifs
    · exact iht u
    · exact ihe u
  | loop c b ihc ihb =>
    refine next_trace (ihc s) fun t => ?_
    split_ifs
    · exact next_trace (ihb t) (hcall _)
    · exact List.prefix_refl _
  | redirected a _ iha => exact iha s
  | define _ _ => exact List.prefix_refl _

theorem run_trace (n : ℕ) (a : Script) (s : State) : s.trace <+: (run w n a s).shell.trace := by
  induction n generalizing a s with
  | zero => exact exec_trace (fun _ _ => List.prefix_refl _) a s
  | succ n ih => exact exec_trace ih a s

theorem runAll_trace (n : ℕ) (as : List Script) (s : State) :
    s.trace <+: (runAll w n as s).shell.trace := by
  induction as generalizing s with
  | nil => exact List.prefix_refl _
  | cons a as ih => exact next_trace (run_trace n a s) ih

/-! ### One command -/

/-- The event of a simple command with these fields. -/
def eventOf (s : State) (c : Simple) (fields : List (List Char)) : Event :=
  ⟨fields, (c.assigns.map fun (name, word) => (name, wordText s word)).reverse ++ s.env,
    filesOf s c.redirs⟩

/-- A command whose name is no function is run, and its fields are what has been expanded. -/
theorem runSimple_log (hfields : c.words.flatMap (expand s) = name :: rest)
    (hfunc : s.funcs.lookup name = none) :
    s.trace ++ [eventOf s c (name :: rest)] <+: (runSimple w call c s).shell.trace := by
  simp only [runSimple, hfields, hfunc]
  split
  · rename_i r hspecial
    unfold runSpecial at hspecial
    split_ifs at hspecial
    all_goals
      cases hspecial
      exact List.prefix_refl _
  · split_ifs
    · unfold runRead
      split
      all_goals exact List.prefix_refl _
    · unfold runEvent
      split
      all_goals exact List.prefix_refl _

/-- The name is that of no built-in with a meaning here. -/
def IsOrdinary (name : List Char) : Prop :=
  name ∉ [[':'], "exit".toList, "return".toList, "export".toList, "unset".toList, "set".toList,
    "read".toList]

instance (name : List Char) : Decidable (IsOrdinary name) :=
  inferInstanceAs (Decidable (_ ∉ _))

/-- A command of the world is run as it is. -/
theorem runSimple_ordinary (hfields : c.words.flatMap (expand s) = name :: rest)
    (hname : IsOrdinary name) (hfunc : s.funcs.lookup name = none) :
    runSimple w call c s = runEvent w s (eventOf s c (name :: rest)) := by
  simp only [IsOrdinary, List.mem_cons, List.not_mem_nil, or_false, not_or] at hname
  obtain ⟨hcolon, hexit, hreturn, hexport, hunset, hset, hread⟩ := hname
  have hspecial : runSpecial (s.log (eventOf s c (name :: rest))) name rest = none := by
    rw [runSpecial, if_neg hcolon, if_neg hexit, if_neg hreturn, if_neg hexport, if_neg hunset,
      if_neg fun h => hset h.1]
  rw [eventOf] at hspecial
  simp only [runSimple, hfields, hspecial, hfunc, if_neg hread]
  rfl

/-- A function is called with the fields behind its name. -/
theorem runSimple_function {body : Script} (hfields : c.words.flatMap (expand s) = name :: rest)
    (hname : IsOrdinary name) (hfunc : s.funcs.lookup name = some body) :
    runSimple w call c s = runFunction call s body rest := by
  simp only [IsOrdinary, List.mem_cons, List.not_mem_nil, or_false, not_or] at hname
  obtain ⟨hcolon, hexit, hreturn, hexport, hunset, hset, -⟩ := hname
  have hspecial : ∀ t : State, runSpecial t name rest = none := by
    intro t
    rw [runSpecial, if_neg hcolon, if_neg hexit, if_neg hreturn, if_neg hexport, if_neg hunset,
      if_neg fun h => hset h.1]
  simp only [runSimple, hfields, hspecial, hfunc]

/-- A command that is done has returned a status. -/
theorem runEvent_eq_done {t : State} (h : runEvent w s ev = ⟨.done, t⟩) :
    ∃ status, w.answer s.trace ev = some status ∧ t = { s.log ev with status := status } := by
  unfold runEvent at h
  split at h
  · cases h
  · rename_i status hanswer
    rw [Result.mk.injEq] at h
    exact ⟨status, hanswer, h.2.symm⟩

theorem runEvent_answer {status : ℕ} (h : w.answer s.trace ev = some status) :
    runEvent w s ev = ⟨.done, { s.log ev with status := status }⟩ := by
  simp only [runEvent, h]

theorem run_ordinary (n : ℕ) (hfields : c.words.flatMap (expand s) = name :: rest)
    (hname : IsOrdinary name) (hfunc : s.funcs.lookup name = none) :
    run w n (.simple c) s = runEvent w s (eventOf s c (name :: rest)) := by
  obtain ⟨call, hrun⟩ := @run_simple w n c s
  rw [hrun, runSimple_ordinary hfields hname hfunc]

/-- A command and what follows it never come to an end. -/
theorem next_stopped (hf : ∀ status, (f { s.log ev with status := status }).outcome = .stopped) :
    ((runEvent w s ev).next f).outcome = .stopped := by
  unfold runEvent
  split
  · rfl
  · exact hf _

theorem Result.next_of_stopped (h : r.outcome = .stopped) (f : State → Result) :
    (r.next f).outcome = .stopped := by
  obtain ⟨outcome, s⟩ := r
  cases outcome with
  | done | returned | exited => cases h
  | stopped => rfl

theorem run_block_cons (n : ℕ) (a : Script) (as : List Script) (s : State) :
    run w n (block (a :: as)) s = (run w n a s).next (run w n (block as)) := by
  obtain ⟨call, hcall⟩ := @exists_run w n
  rw [hcall]
  rfl

/-- Definitions stand in front of the functions of before. -/
theorem runAll_define (n : ℕ) (name : List Char) (body : Script) (as : List Script) (s : State) :
    runAll w n (.define name body :: as) s =
      runAll w n as { s with funcs := (name, body) :: s.funcs, status := 0 } := by
  rw [runAll_cons, run_define, Result.next_done]

theorem run_or (n : ℕ) (a b : Script) (s : State) :
    run w n (.or a b) s = (run w n a s).next fun s =>
      if s.status = 0 then ⟨.done, s⟩ else run w n b s := by
  obtain ⟨call, hcall⟩ := @exists_run w n
  rw [hcall]
  rfl

/-- A function that does not come back. -/
theorem run_function_stopped {body : Script} (hfields : c.words.flatMap (expand s) = name :: rest)
    (hname : IsOrdinary name) (hfunc : s.funcs.lookup name = some body)
    (hbody : ∀ m t, t.funcs = s.funcs → (run w m body t).outcome = .stopped) (n : ℕ) :
    (run w n (.simple c) s).outcome = .stopped := by
  have hoff : ∀ call : Script → State → Result,
      (call body { s with args := rest }).outcome = .stopped →
      (exec w call (.simple c) s).outcome = .stopped := by
    intro call hcall
    rw [exec, runSimple_function hfields hname hfunc, runFunction]
    simp only [hcall, if_neg (by decide : Outcome.stopped ≠ .returned)]
  cases n with
  | zero => exact hoff _ rfl
  | succ n => exact hoff _ (hbody n _ rfl)

/-- The command that a script begins with. -/
def Script.first? : Script → Option Simple
  | .simple c => some c
  | .seq a _ | .and a _ | .or a _ | .not a | .ite a _ _ | .loop a _ | .redirected a _ => a.first?
  | .skip | .define _ _ => none

/-- A script runs the command that it begins with. -/
theorem exec_first (hcall : ∀ a s, s.trace <+: (call a s).shell.trace) (h : a.first? = some c)
    (s : State) : (runSimple w call c s).shell.trace <+: (exec w call a s).shell.trace := by
  induction a with
  | skip | define _ _ => cases h
  | simple d =>
    rw [Script.first?, Option.some.injEq] at h
    rw [h]
    exact List.prefix_refl _
  | seq a b iha _ => exact next_trace (iha h) (exec_trace hcall b)
  | and a b iha _ =>
    refine next_trace (iha h) fun t => ?_
    split_ifs
    · exact exec_trace hcall b t
    · exact List.prefix_refl _
  | or a b iha _ =>
    refine next_trace (iha h) fun t => ?_
    split_ifs
    · exact List.prefix_refl _
    · exact exec_trace hcall b t
  | not a iha => exact next_trace (iha h) fun t => List.prefix_refl _
  | ite a b d iha _ _ =>
    refine next_trace (iha h) fun t => ?_
    split_ifs
    · exact exec_trace hcall b t
    · exact exec_trace hcall d t
  | loop a b iha _ =>
    refine next_trace (iha h) fun t => ?_
    split_ifs
    · exact next_trace (exec_trace hcall b t) (hcall _)
    · exact List.prefix_refl _
  | redirected a _ iha => exact iha h

theorem run_first {a : Script} {c : Simple} (h : a.first? = some c) (n : ℕ) (s : State) :
    ∃ call, (runSimple w call c s).shell.trace <+: (run w n a s).shell.trace := by
  cases n with
  | zero => exact ⟨_, exec_first (fun _ _ => List.prefix_refl _) h s⟩
  | succ n => exact ⟨_, exec_first (run_trace n) h s⟩

/-! ### What a run leaves alone -/

/-- The command assigns nothing, and its name is not that of a built-in that does. -/
def Simple.Quiet (c : Simple) : Bool :=
  c.assigns.isEmpty &&
    match c.words with
    | [] => true
    | word :: _ =>
      match literal word with
      | none => false
      | some name =>
        name ≠ [] && ! ["export".toList, "unset".toList, "set".toList, "read".toList].contains name

/-- A script without definitions of functions; a quiet one assigns no variables. -/
def Script.Plain (quiet : Bool) : Script → Bool
  | .skip => true
  | .simple c => ! quiet || c.Quiet
  | .seq a b | .and a b | .or a b | .loop a b => a.Plain quiet && b.Plain quiet
  | .not a | .redirected a _ => a.Plain quiet
  | .ite c t e => c.Plain quiet && t.Plain quiet && e.Plain quiet
  | .define _ _ => false

/-- A run that leaves the functions alone, and a quiet one that leaves the variables alone. -/
structure Kept (quiet : Bool) (s t : State) : Prop where
  funcs : t.funcs = s.funcs
  vars : quiet = true → t.vars = s.vars
  exported : quiet = true → t.exported = s.exported

namespace Kept

variable {quiet : Bool} {s t u : State}

theorem refl (s : State) : Kept quiet s s := ⟨rfl, fun _ => rfl, fun _ => rfl⟩

theorem trans (h : Kept quiet s t) (h' : Kept quiet t u) : Kept quiet s u :=
  ⟨h'.funcs.trans h.funcs, fun hq => (h'.vars hq).trans (h.vars hq),
    fun hq => (h'.exported hq).trans (h.exported hq)⟩

end Kept

/-- All functions are plain. -/
def PlainFuncs (quiet : Bool) (s : State) : Prop := ∀ f ∈ s.funcs, f.2.Plain quiet = true

theorem mem_of_lookup {β : Type*} {l : List (List Char × β)} {b : β} (h : l.lookup name = some b) :
    (name, b) ∈ l := by
  induction l with
  | nil => cases h
  | cons x l ih =>
    rw [List.lookup_cons] at h
    split at h
    · rename_i heq
      rw [Option.some.injEq] at h
      rw [← h, eq_of_beq heq]
      exact List.mem_cons_self
    · exact List.mem_cons_of_mem _ (ih h)

section Plain

variable {quiet : Bool}

/-- A literal name is the first field of its command. -/
theorem expand_literal {word : Word} (h : literal word = some name) (hne : name ≠ []) (s : State) :
    expand s word = [name] := by
  have htext : ∀ {word : Word} {name : List Char}, literal word = some name →
      wordText s word = name ∧ Piece.quotes ∉ word ∧ ∀ n b, Piece.param n b ∉ word := by
    intro word
    induction word with
    | nil =>
      intro name h
      rw [literal, Option.some.injEq] at h
      simp [wordText, ← h]
    | cons x word ih =>
      intro name h
      cases x with
      | lit c =>
        rw [literal, Option.map_eq_some_iff] at h
        obtain ⟨rest, hrest, rfl⟩ := h
        obtain ⟨htext, hquotes, hparam⟩ := ih hrest
        refine ⟨?_, by simpa using hquotes, by simpa using hparam⟩
        rw [wordText, List.flatMap_cons, ← wordText, htext]
        rfl
      | quoted _ | quotes | param _ _ => cases h
  obtain ⟨htext, -, hparam⟩ := htext h
  have hnot : word ≠ [.quotes, .param ['@'] true] := by
    intro heq
    exact hparam ['@'] true (by simp [heq])
  rw [expand, if_neg hnot, htext, if_neg fun hnil => hne hnil.1]

/-- The name of a quiet command, where it has one. -/
theorem Simple.Quiet.name_ne (h : c.Quiet = true)
    (hfields : c.words.flatMap (expand s) = name :: rest) :
    name ≠ "export".toList ∧ name ≠ "unset".toList ∧ name ≠ "read".toList := by
  obtain ⟨assigns, words, redirs⟩ := c
  simp only [Simple.Quiet, Bool.and_eq_true] at h
  cases words with
  | nil => cases hfields
  | cons word words =>
    have hquiet := h.2
    simp only at hquiet
    split at hquiet
    · cases hquiet
    · rename_i first hliteral
      simp only [Bool.and_eq_true, decide_eq_true_eq, Bool.not_eq_true', List.contains_eq_mem,
        decide_eq_false_iff_not, List.mem_cons, List.not_mem_nil, or_false, not_or] at hquiet
      obtain ⟨hne, hexport, hunset, -, hread⟩ := hquiet
      rw [List.flatMap_cons, expand_literal hliteral hne, List.singleton_append,
        List.cons.injEq] at hfields
      rw [← hfields.1]
      exact ⟨hexport, hunset, hread⟩

theorem runSimple_kept
    (hcall : ∀ a s, a.Plain quiet = true → PlainFuncs quiet s → Kept quiet s (call a s).shell)
    (hc : (! quiet || c.Quiet) = true) (hs : PlainFuncs quiet s) :
    Kept quiet s (runSimple w call c s).shell := by
  have hquiet : quiet = true → c.Quiet = true := by
    intro hq
    simpa [hq] using hc
  unfold runSimple
  dsimp only
  split
  · refine ⟨rfl, fun hq => ?_, fun _ => rfl⟩
    have hassigns : c.assigns = [] := by
      have h := hquiet hq
      simp only [Simple.Quiet, Bool.and_eq_true, List.isEmpty_iff] at h
      exact h.1
    rw [hassigns]
    rfl
  · rename_i name rest hfields
    have hname := fun hq => Simple.Quiet.name_ne (hquiet hq) hfields
    split
    · rename_i r hspecial
      unfold runSpecial at hspecial
      split_ifs at hspecial with h₁ h₂ h₃ h₄ h₅ h₆
      all_goals cases hspecial
      · exact ⟨rfl, fun _ => rfl, fun _ => rfl⟩
      · exact ⟨rfl, fun _ => rfl, fun _ => rfl⟩
      · exact ⟨rfl, fun _ => rfl, fun _ => rfl⟩
      · exact ⟨rfl, fun _ => rfl, fun hq => absurd h₄ (hname hq).1⟩
      · exact ⟨rfl, fun hq => absurd h₅ (hname hq).2.1, fun hq => absurd h₅ (hname hq).2.1⟩
      · exact ⟨rfl, fun _ => rfl, fun _ => rfl⟩
    · split
      · rename_i body hbody
        have hkept := hcall body { s with args := rest } (hs _ (mem_of_lookup hbody)) hs
        exact ⟨hkept.funcs, hkept.vars, hkept.exported⟩
      · split
        · rename_i hread
          unfold runRead
          split
          · exact ⟨rfl, fun _ => rfl, fun _ => rfl⟩
          · exact ⟨rfl, fun hq => absurd hread (hname hq).2.2, fun _ => rfl⟩
        · unfold runEvent
          split
          all_goals exact ⟨rfl, fun _ => rfl, fun _ => rfl⟩

theorem next_kept (hs : PlainFuncs quiet s) (h : Kept quiet s r.shell)
    (hf : ∀ t, PlainFuncs quiet t → Kept quiet t (f t).shell) : Kept quiet s (r.next f).shell := by
  obtain ⟨outcome, t⟩ := r
  have ht : PlainFuncs quiet t := by
    intro g hg
    rw [h.funcs] at hg
    exact hs g hg
  cases outcome with
  | done => exact h.trans (hf t ht)
  | returned | exited | stopped => exact h

theorem exec_kept
    (hcall : ∀ a s, a.Plain quiet = true → PlainFuncs quiet s → Kept quiet s (call a s).shell)
    (ha : a.Plain quiet = true) (hs : PlainFuncs quiet s) :
    Kept quiet s (exec w call a s).shell := by
  induction a generalizing s with
  | skip => exact .refl s
  | simple c => exact runSimple_kept hcall ha hs
  | seq a b iha ihb =>
    simp only [Script.Plain, Bool.and_eq_true] at ha
    exact next_kept hs (iha ha.1 hs) fun t ht => ihb ha.2 ht
  | and a b iha ihb =>
    simp only [Script.Plain, Bool.and_eq_true] at ha
    refine next_kept hs (iha ha.1 hs) fun t ht => ?_
    split_ifs
    · exact ihb ha.2 ht
    · exact .refl t
  | or a b iha ihb =>
    simp only [Script.Plain, Bool.and_eq_true] at ha
    refine next_kept hs (iha ha.1 hs) fun t ht => ?_
    split_ifs
    · exact .refl t
    · exact ihb ha.2 ht
  | not a iha =>
    exact next_kept hs (iha ha hs) fun t _ => ⟨rfl, fun _ => rfl, fun _ => rfl⟩
  | ite c t e ihc iht ihe =>
    simp only [Script.Plain, Bool.and_eq_true] at ha
    refine next_kept hs (ihc ha.1.1 hs) fun u hu => ?_
    split_ifs
    · exact iht ha.1.2 hu
    · exact ihe ha.2 hu
  | loop c b ihc ihb =>
    have hloop := ha
    simp only [Script.Plain, Bool.and_eq_true] at ha
    refine next_kept hs (ihc ha.1 hs) fun t ht => ?_
    split_ifs
    · exact next_kept ht (ihb ha.2 ht) fun u hu => hcall _ u hloop hu
    · exact .refl t
  | redirected a _ iha => exact iha ha hs
  | define _ _ => cases ha

/-- A run of a plain script. -/
theorem run_kept (n : ℕ) (ha : a.Plain quiet = true) (hs : PlainFuncs quiet s) :
    Kept quiet s (run w n a s).shell := by
  induction n generalizing a s with
  | zero => exact exec_kept (fun _ s _ _ => .refl s) ha hs
  | succ n ih => exact exec_kept (fun a s ha hs => ih ha hs) ha hs

theorem runAll_kept (n : ℕ) {as : List Script} (has : ∀ a ∈ as, a.Plain quiet = true) {s : State}
    (hs : PlainFuncs quiet s) : Kept quiet s (runAll w n as s).shell := by
  induction as generalizing s with
  | nil => exact .refl s
  | cons a as ih =>
    exact next_kept hs (run_kept n (has a List.mem_cons_self) hs)
      fun t ht => ih (fun b hb => has b (List.mem_cons_of_mem a hb)) ht

end Plain

end NeoProot.Shell
