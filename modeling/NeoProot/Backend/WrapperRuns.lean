import NeoProot.Backend.WrapperSyntax

/-!
# What the wrapper runs

The shell that runs the wrapper exports every variable with its exact value, mounts every
bind from and to its exact path, and comes to the argument vector with the same words.  Where
the guest has `setsid`, the vector stands behind an option of `setsid`, so that a first word
with a dash is one more option; where it has none, a first word that names a function of the
wrapper calls the function.

## Main definitions

* `Executes` — a command of the shell executes an argument vector.
* `Runs` — what the wrapper has to do.
* `runs_iff` — when it does.
-/

namespace NeoProot.Wrapper
open Shell

variable {k n : ℕ} {r : Request} {s t : State} {name statusPath value : CStr}

/-! ### What has to be run -/

/-- A word that `setsid` takes for an option. -/
def isOptionWord (word : CStr) : Bool := word.head? = some '-' && word ≠ ['-']

/-- The words behind the options of `setsid`. -/
def operands : List CStr → List CStr
  | [] => []
  | word :: words =>
    if word = str "--" then words
    else if isOptionWord word then operands words
    else word :: words

/-- A command of the shell executes an argument vector: it is the vector, or `setsid` with
the vector behind its options. -/
inductive Executes : List CStr → List CStr → Prop
  | direct {argv : List CStr} (hne : argv ≠ []) : Executes argv argv
  | setsid {words argv : List CStr} (hne : argv ≠ []) (hwords : operands words = argv) :
    Executes (str "setsid" :: words) argv

/-- The words of the mounts of a bind. -/
def bindWords (bind : Bind) : List (List CStr) :=
  [str "mount", str "--bind", bind.sourceGuest, bind.guest] ::
  if bind.readonly then [[str "mount", str "-o", str "remount,bind,ro", bind.guest]] else []

/-- The value of a variable that is passed on. -/
def passedOn (environ : List CStr) (name : CStr) : Option CStr :=
  (allowedEnvironment environ).reverse.lookup name

/-- The functions of the wrapper. -/
def functionNames (r : Request) : List CStr :=
  str "um_session_leader" :: (if r.config.networkAuto then [str "um_net_auto"] else []) ++
    if r.ext4Rootfs then [] else [str "um_stop", str "um_fail"]

/-- The entry into the working directory. -/
def cdEvent (r : Request) (s : State) : Event := ⟨[str "cd", r.cwd], s.env, []⟩

/-- The command that sets the positional parameters. -/
def setEvent (r : Request) (s : State) : Event :=
  ⟨str "set" :: str "--" :: r.guestArgv, s.env, []⟩

/-- The question for `setsid`. -/
def checkEvent (s : State) : Event :=
  ⟨[str "command", str "-v", str "setsid"], s.env, [str "/dev/null"]⟩

/-- What the wrapper has to do, from the shell in front of the working directory: the shell
reads its lines as they are meant, every bind has been mounted, and behind the working directory
a command executes the argument vector with the variables that are passed on. -/
structure Runs (w : World) (n : ℕ) (r : Request) (s : State) : Prop where
  parsed : compile (umWriteWrapper r) = some (preparation r ++ ending r)
  binds : r.ext4Rootfs = false → ∃ before after, s.trace.map (·.words) =
    before ++ r.config.binds.flatMap bindWords ++ after
  vector : ∃ ev, s.trace ++ [cdEvent r s, setEvent r s, checkEvent s, ev] <+:
      (runAll w (n + 2) (preparation r ++ ending r) .start).shell.trace ∧
    Executes ev.words r.guestArgv ∧
    ∀ name value, passedOn r.environ name = some value → ev.env.lookup name = some value

/-! ### The words of the script -/

theorem literal_map_lit (cs : CStr) : literal (cs.map .lit) = some cs := by
  induction cs with
  | nil => rfl
  | cons c cs ih =>
    rw [List.map_cons, literal, ih]
    rfl

theorem expand_map_lit (s : State) {cs : CStr} (h : cs ≠ []) : expand s (cs.map .lit) = [cs] :=
  expand_literal (literal_map_lit cs) h s

theorem expand_lits (s : State) (text : String) (h : str text ≠ []) :
    expand s (lits text) = [str text] :=
  expand_map_lit s h

theorem fields_lits (s : State) {text : String} (h : str text ≠ []) (words : List Word) :
    (lits text :: words).flatMap (expand s) = str text :: words.flatMap (expand s) := by
  rw [List.flatMap_cons, expand_lits s text h]
  rfl

theorem fields_quoteWord (s : State) (value : CStr) (words : List Word) :
    (quoteWord value :: words).flatMap (expand s) = value :: words.flatMap (expand s) := by
  rw [List.flatMap_cons, expand_quoteWord]
  rfl

theorem fields_quoteWords (s : State) (values : List CStr) :
    (values.map quoteWord).flatMap (expand s) = values := by
  rw [List.flatMap_map]
  simp only [expand_quoteWord, List.flatMap_singleton']

theorem expand_arguments (s : State) : expand s (quotedParam "@") = s.args := by
  rw [expand, if_pos (by decide)]

/-- Any other parameter between double quotes is one field. -/
theorem expand_quotedParam (s : State) {name : String} (h : str name ≠ ['@']) :
    expand s (quotedParam name) = [s.param (str name)] := by
  have hnot : quotedParam name ≠ [.quotes, .param ['@'] true] := by
    simpa [quotedParam] using h
  have hquotes : Piece.quotes ∈ quotedParam name := List.mem_cons_self
  rw [expand, if_neg hnot, if_neg fun hnil => hnil.2 hquotes]
  simp [wordText, quotedParam, pieceText]

/-! ### The shell in front of the environment -/

/-- The functions of the beginning. -/
def startFuncs (r : Request) : List (CStr × Script) :=
  if r.ext4Rootfs then []
  else [(str "um_stop", stopBody), (str "um_fail", failBody r.statusPath)]

theorem plain_failBody (statusPath : CStr) (quiet : Bool) :
    (failBody statusPath).Plain quiet = true := by
  cases quiet <;> rfl

theorem plain_stopBody (quiet : Bool) : stopBody.Plain quiet = true := by
  cases quiet <;> rfl

theorem plainFuncs_startFuncs (r : Request) (quiet : Bool) :
    ∀ f ∈ startFuncs r, f.2.Plain quiet = true := by
  intro f hf
  rw [startFuncs] at hf
  split_ifs at hf
  · cases hf
  · simp only [List.mem_cons, List.not_mem_nil, or_false] at hf
    obtain rfl | rfl := hf
    · exact plain_stopBody quiet
    · exact plain_failBody r.statusPath quiet

theorem plain_fixedScripts : ∀ a ∈ fixedScripts, a.Plain false = true := by
  rw [fixedScripts]
  exact List.forall_mem_append.2 ⟨readsPlain_loopback.2, readsPlain_fixedEnvironment.2⟩

variable {w : World}

/-- Commands that define nothing leave the functions of the beginning alone. -/
theorem funcs_of_plain {as : List Script} (has : ∀ a ∈ as, a.Plain false = true)
    (hs : s.funcs = startFuncs r) (h : runAll w n as s = ⟨.done, t⟩) : t.funcs = startFuncs r := by
  have hkept := @runAll_kept w false n as has s (by
    intro f hf
    rw [hs] at hf
    exact plainFuncs_startFuncs r false f hf)
  rw [h] at hkept
  exact hkept.funcs.trans hs

/-- The beginning leaves its functions behind. -/
theorem funcs_start
    (h : runAll w n (startScripts r.statusPath r.ext4Rootfs r.ext4Binds ++ fixedScripts) .start =
      ⟨.done, s⟩) : s.funcs = startFuncs r := by
  by_cases hext4 : r.ext4Rootfs = true
  · have hplain : ∀ a ∈ startScripts r.statusPath r.ext4Rootfs r.ext4Binds ++ fixedScripts,
        a.Plain false = true := by
      rw [startScripts, if_pos hext4]
      split_ifs
      · exact List.forall_mem_append.2 ⟨readsPlain_bindGate.2, plain_fixedScripts⟩
      · rw [List.nil_append]
        exact plain_fixedScripts
    have hnone : State.start.funcs = startFuncs r := by
      rw [startFuncs, if_pos hext4]
      rfl
    exact funcs_of_plain hplain hnone h
  · rw [startScripts, if_neg hext4, List.append_assoc, List.cons_append, runAll_define,
      List.cons_append, runAll_define, List.nil_append] at h
    refine funcs_of_plain ?_ ?_ h
    · exact List.forall_mem_append.2 ⟨readsPlain_systemMounts.2, plain_fixedScripts⟩
    · rw [startFuncs, if_neg hext4]
      rfl

/-! ### The environment -/

theorem run_assign (n : ℕ) (name value : CStr) (s : State) :
    run w n (.simple ⟨[(name, quoteWord value)], [], []⟩) s =
      ⟨.done, { s with vars := (name, value) :: s.vars, status := 0 }⟩ := by
  obtain ⟨call, hrun⟩ := @run_simple w n ⟨[(name, quoteWord value)], [], []⟩ s
  rw [hrun]
  simp only [runSimple, List.flatMap_nil, List.map_cons, List.map_nil, wordText_quoteWord]
  rfl

theorem run_export (n : ℕ) {name : CStr} (hname : name ≠ []) (s : State) :
    ∃ t, run w n (command [lits "export", name.map .lit]) s = ⟨.done, t⟩ ∧ t.vars = s.vars ∧
      t.exported = s.exported ++ [name] ∧ t.funcs = s.funcs := by
  obtain ⟨call, hrun⟩ := @run_simple w n ⟨[], [lits "export", name.map .lit], []⟩ s
  have hfields : [lits "export", name.map .lit].flatMap (expand s) = [str "export", name] := by
    rw [fields_lits s (by decide), List.flatMap_cons, expand_map_lit s hname]
    rfl
  have hspecial : ∀ t : State, runSpecial t (str "export") [name] =
      some ⟨.done, { t with exported := t.exported ++ [name], status := 0 }⟩ := by
    intro t
    rfl
  rw [command, hrun]
  simp only [runSimple, hfields, hspecial]
  exact ⟨_, rfl, rfl, rfl, rfl⟩

/-- The shell behind the environment. -/
theorem runAll_environment (n : ℕ) {entries : List (CStr × CStr)}
    (hnames : ∀ e ∈ entries, IsName e.1) (s : State) :
    ∃ t, runAll w n (entries.flatMap environmentScripts) s = ⟨.done, t⟩ ∧
      t.vars = entries.reverse ++ s.vars ∧ t.exported = s.exported ++ entries.map Prod.fst ∧
        t.funcs = s.funcs := by
  induction entries generalizing s with
  | nil => exact ⟨s, rfl, rfl, by simp, rfl⟩
  | cons e entries ih =>
    have hname : e.1 ≠ [] := by
      obtain ⟨c, cs, hname, -⟩ := hnames e List.mem_cons_self
      simp [hname]
    obtain ⟨t, hexport, hvars, hexported, hfuncs⟩ :=
      @run_export w n e.1 hname { s with vars := (e.1, e.2) :: s.vars, status := 0 }
    obtain ⟨u, hrest, hvars', hexported', hfuncs'⟩ :=
      ih (fun e' he => hnames e' (List.mem_cons_of_mem e he)) t
    refine ⟨u, ?_, ?_, ?_, ?_⟩
    · rw [List.flatMap_cons, environmentScripts, List.cons_append, runAll_cons, run_assign,
        Result.next_done, List.cons_append, runAll_cons, hexport, Result.next_done,
        List.nil_append, hrest]
    · rw [hvars', hvars, List.reverse_cons, List.append_assoc]
      rfl
    · rw [hexported', hexported, List.map_cons, List.append_assoc]
      rfl
    · exact hfuncs'.trans hfuncs

theorem lookup_map_fst {entries : List (CStr × CStr)} (h : entries.lookup name = some value) :
    name ∈ entries.map Prod.fst :=
  List.mem_map.2 ⟨(name, value), mem_of_lookup h, rfl⟩

theorem lookup_append_of_some {l l' : List (CStr × CStr)} (h : l.lookup name = some value) :
    (l ++ l').lookup name = some value := by
  rw [List.lookup_append, h]
  rfl

/-- An exported variable is in the environment. -/
theorem lookup_env (hexported : name ∈ s.exported) (hvalue : s.vars.lookup name = some value) :
    s.env.lookup name = some value := by
  rw [State.env]
  revert hexported
  generalize s.exported = names
  intro hexported
  induction names with
  | nil => cases hexported
  | cons x names ih =>
    by_cases hx : name = x
    · subst hx
      simp [hvalue]
    · have hmem : name ∈ names := (List.mem_cons.1 hexported).resolve_left hx
      cases hlookup : s.vars.lookup x with
      | none =>
        rw [List.filterMap_cons, hlookup]
        exact ih hmem
      | some v =>
        rw [List.filterMap_cons, hlookup]
        simp only [Option.map_some, List.lookup_cons, beq_eq_false_iff_ne.2 hx]
        exact ih hmem

/-! ### The end of the guest -/

/-- The loop at the end of `um_stop`. -/
def sleepLoop : Script :=
  .loop (block [command [lits ":"]]) (block [command [lits "sleep", lits "3600"]])

variable {call : Script → State → Result}

theorem exec_command (words : List Word) (s : State) :
    exec w call (command words) s = runSimple w call ⟨[], words, []⟩ s := rfl

theorem exec_block_cons (a : Script) (as : List Script) (s : State) :
    exec w call (block (a :: as)) s = (exec w call a s).next (exec w call (block as)) := rfl

/-- A round of the loop. -/
theorem exec_sleepLoop (h : s.funcs.lookup (str "sleep") = none)
    (hcall : ∀ t : State, t.funcs = s.funcs → (call sleepLoop t).outcome = .stopped) :
    (exec w call sleepLoop s).outcome = .stopped := by
  have hcolon : ∃ t, exec w call (block [command [lits ":"]]) s = ⟨.done, t⟩ ∧ t.status = 0 ∧
      t.funcs = s.funcs := by
    have hfields : [lits ":"].flatMap (expand s) = [str ":"] := by
      rw [fields_lits s (by decide)]
      rfl
    rw [exec_block_cons, exec_command]
    simp only [runSimple, hfields]
    exact ⟨_, rfl, rfl, rfl⟩
  obtain ⟨t, hcolon, hstatus, hfuncs⟩ := hcolon
  have hfields : [lits "sleep", lits "3600"].flatMap (expand t) = [str "sleep", str "3600"] := by
    rw [fields_lits t (by decide), fields_lits t (by decide)]
    rfl
  rw [sleepLoop, exec, hcolon, Result.next_done, if_pos hstatus, exec_block_cons, exec_command,
    runSimple_ordinary hfields (by decide) (hfuncs ▸ h), Result.next_next]
  exact next_stopped fun status => hcall _ hfuncs

/-- The loop is never left. -/
theorem run_sleepLoop (h : s.funcs.lookup (str "sleep") = none) (n : ℕ) :
    (run w n sleepLoop s).outcome = .stopped := by
  induction n generalizing s with
  | zero => exact exec_sleepLoop h fun _ _ => rfl
  | succ n ih => exact exec_sleepLoop h fun t ht => ih (ht ▸ h)

/-- The functions are none of the commands of `um_stop`. -/
def StopKept (s : State) : Prop :=
  s.funcs.lookup (str "um_stop") = some stopBody ∧
    ∀ name ∈ [str "sync", str "poweroff", str "reboot", str "printf", str "sleep"],
      s.funcs.lookup name = none

theorem fields_two (s : State) {text text' : String} (h : str text ≠ []) (h' : str text' ≠ []) :
    [lits text, lits text'].flatMap (expand s) = [str text, str text'] := by
  rw [fields_lits s h, fields_lits s h']
  rfl

/-- `um_stop` does not come back. -/
theorem run_stopBody (h : StopKept s) (n : ℕ) : (run w n stopBody s).outcome = .stopped := by
  have hsync : [lits "sync"].flatMap (expand s) = [str "sync"] := by
    rw [fields_lits s (by decide)]
    rfl
  have hstep : ∀ {c : Simple} {name : CStr} {rest : List CStr} {t : State} {as : List Script},
      c.words.flatMap (expand t) = name :: rest → IsOrdinary name → t.funcs = s.funcs →
      s.funcs.lookup name = none →
      (∀ u : State, u.funcs = s.funcs → (run w n (block as) u).outcome = .stopped) →
      (run w n (block (.simple c :: as)) t).outcome = .stopped := by
    intro c name rest t as hfields hname ht hfunc hrest
    rw [run_block_cons, run_ordinary n hfields hname (ht ▸ hfunc)]
    exact next_stopped fun status => hrest _ ht
  refine hstep hsync (by decide) rfl (h.2 _ (by decide)) fun t ht => ?_
  refine hstep (fields_two t (by decide) (by decide)) (by decide) ht (h.2 _ (by decide))
    fun u hu => ?_
  refine hstep (fields_two u (by decide) (by decide)) (by decide) hu (h.2 _ (by decide))
    fun v hv => ?_
  refine hstep (fields_two v (by decide) (by decide)) (by decide) hv (h.2 _ (by decide))
    fun x hx => ?_
  have hsleep : x.funcs.lookup (str "sleep") = none := hx ▸ h.2 _ (by decide)
  rw [run_block_cons]
  exact Result.next_of_stopped (run_sleepLoop hsleep n) _

/-- Neither does `um_fail`. -/
theorem run_fail {s : State} {statusPath : CStr} (h : StopKept s)
    (hfail : s.funcs.lookup (str "um_fail") = some (failBody statusPath)) (n : ℕ) :
    (run w n (command [lits "um_fail", lits "125"]) s).outcome = .stopped := by
  have hstop : ∀ (m : ℕ) (t : State), StopKept t →
      (run w m (command [lits "um_stop"]) t).outcome = .stopped := by
    intro m t ht
    have hfields : [lits "um_stop"].flatMap (expand t) = [str "um_stop"] := by
      rw [fields_lits t (by decide)]
      rfl
    refine run_function_stopped hfields (by decide) ht.1 (fun k u hu => run_stopBody ?_ k) m
    exact ⟨hu ▸ ht.1, fun name hname => hu ▸ ht.2 name hname⟩
  refine run_function_stopped (fields_two s (by decide) (by decide)) (by decide) hfail
    (fun m t ht => ?_) n
  have hfields : [lits "printf", quoteWord (str "%s\\n"), quotedParam "1"].flatMap (expand t) =
      [str "printf", str "%s\\n", t.param (str "1")] := by
    rw [fields_lits t (by decide), fields_quoteWord, List.flatMap_cons,
      expand_quotedParam t (by decide)]
    rfl
  rw [failBody, run_block_cons,
    run_ordinary m hfields (by decide) (ht ▸ h.2 (str "printf") (by decide))]
  refine next_stopped fun status => ?_
  rw [run_block_cons]
  refine Result.next_of_stopped (hstop m _ ⟨?_, fun name hname => ?_⟩) _
  · exact ht ▸ h.1
  · exact ht ▸ h.2 name hname

/-! ### The binds -/

/-- The shell has run these commands, and its variables and functions are as they were. -/
structure Ran (words : List (List CStr)) (s t : State) : Prop where
  words : t.trace.map (·.words) = s.trace.map (·.words) ++ words
  kept : Kept true s t

theorem Ran.refl (s : State) : Ran [] s s := ⟨(List.append_nil _).symm, .refl s⟩

theorem Ran.trans {words words' : List (List CStr)} {u : State} (h : Ran words s t)
    (h' : Ran words' t u) : Ran (words ++ words') s u :=
  ⟨by rw [h'.words, h.words, List.append_assoc], h.kept.trans h'.kept⟩

/-- A mount that does not end the guest has been run. -/
theorem run_orFail {words : List Word} {rest : List CStr}
    (hfuncs : s.funcs = [(str "um_stop", stopBody), (str "um_fail", failBody statusPath)])
    (hfields : words.flatMap (expand s) = str "mount" :: rest)
    (h : run w n (orFail (command words)) s = ⟨.done, t⟩) : Ran [str "mount" :: rest] s t := by
  have hmount : s.funcs.lookup (str "mount") = none := by
    rw [hfuncs]
    rfl
  rw [orFail, run_or, command, run_ordinary n hfields (by decide) hmount] at h
  obtain ⟨u, hevent, hrest⟩ := Result.next_eq_done h
  obtain ⟨status, -, rfl⟩ := runEvent_eq_done hevent
  split_ifs at hrest with hzero
  · rw [Result.mk.injEq] at hrest
    obtain rfl := hrest.2
    refine ⟨?_, rfl, fun _ => rfl, fun _ => rfl⟩
    simp [State.log, eventOf]
  · have hkept : StopKept { s.log (eventOf s ⟨[], words, []⟩ (str "mount" :: rest)) with
        status := status } := by
      refine ⟨?_, fun name hname => ?_⟩
      · simp only [State.log, hfuncs]
        rfl
      · simp only [List.mem_cons, List.not_mem_nil, or_false] at hname
        simp only [State.log, hfuncs]
        obtain rfl | rfl | rfl | rfl | rfl := hname
        all_goals rfl
    have hfail := @run_fail w _ statusPath hkept (by
      simp only [State.log, hfuncs]
      rfl) n
    rw [hrest] at hfail
    cases hfail

/-- A bind that does not end the guest has been mounted. -/
theorem runAll_bindScripts {bind : Bind}
    (hfuncs : s.funcs = [(str "um_stop", stopBody), (str "um_fail", failBody statusPath)])
    (h : runAll w n (bindScripts bind) s = ⟨.done, t⟩) : Ran (bindWords bind) s t := by
  have hbind : [lits "mount", lits "--bind", quoteWord bind.sourceGuest,
      quoteWord bind.guest].flatMap (expand s) =
      [str "mount", str "--bind", bind.sourceGuest, bind.guest] := by
    rw [fields_lits s (by decide), fields_lits s (by decide), fields_quoteWord, fields_quoteWord]
    rfl
  rw [bindScripts, runAll_cons] at h
  obtain ⟨u, hmount, hrest⟩ := Result.next_eq_done h
  have hran := run_orFail hfuncs hbind hmount
  by_cases hreadonly : bind.readonly = true
  · have hremount : [lits "mount", lits "-o", lits "remount,bind,ro",
        quoteWord bind.guest].flatMap (expand u) =
        [str "mount", str "-o", str "remount,bind,ro", bind.guest] := by
      rw [fields_lits u (by decide), fields_lits u (by decide), fields_lits u (by decide),
        fields_quoteWord]
      rfl
    rw [if_pos hreadonly, runAll_cons] at hrest
    obtain ⟨v, hremounted, hnil⟩ := Result.next_eq_done hrest
    have hran' := run_orFail (hran.kept.funcs.trans hfuncs) hremount hremounted
    rw [runAll, Result.mk.injEq] at hnil
    obtain rfl := hnil.2
    rw [bindWords, if_pos hreadonly]
    exact hran.trans hran'
  · rw [if_neg hreadonly, runAll, Result.mk.injEq] at hrest
    obtain rfl := hrest.2
    rw [bindWords, if_neg hreadonly]
    exact hran

/-- All binds have been mounted, in their order. -/
theorem runAll_binds {binds : List Bind}
    (hfuncs : s.funcs = [(str "um_stop", stopBody), (str "um_fail", failBody statusPath)])
    (h : runAll w n (binds.flatMap bindScripts) s = ⟨.done, t⟩) :
    Ran (binds.flatMap bindWords) s t := by
  induction binds generalizing s with
  | nil =>
    rw [List.flatMap_nil, runAll, Result.mk.injEq] at h
    obtain rfl := h.2
    exact .refl s
  | cons bind binds ih =>
    rw [List.flatMap_cons, runAll_append] at h
    obtain ⟨u, hbind, hrest⟩ := Result.next_eq_done h
    have hran := runAll_bindScripts hfuncs hbind
    rw [List.flatMap_cons]
    exact hran.trans (ih (hran.kept.funcs.trans hfuncs) hrest)

/-! ### The network -/

theorem plain_netBody (config : Config) : (netBody config).Plain true = true := by
  have hchecks : netChecks.all (·.Plain true) = true := rfl
  have hdhcp : dhcp.Plain true = true := rfl
  have hblock : ∀ {as : List Script}, (∀ a ∈ as, a.Plain true = true) →
      (block as).Plain true = true := by
    intro as has
    induction as with
    | nil => rfl
    | cons a as ih =>
      rw [block, List.foldr_cons, Script.Plain, ← block, has a List.mem_cons_self,
        ih fun b hb => has b (List.mem_cons_of_mem a hb)]
      rfl
  apply hblock
  intro a ha
  simp only [netCommands, List.mem_append, List.mem_singleton] at ha
  obtain (ha | rfl) | ha := ha
  · exact List.all_eq_true.1 hchecks a ha
  · rw [Script.Plain, hdhcp]
    rfl
  · unfold ipv6Words at ha
    split_ifs at ha
    · simp only [ipv6Scripts, List.mem_cons, List.not_mem_nil, or_false] at ha
      obtain rfl | rfl := ha
      · rfl
      · rfl
    · cases ha

/-- The functions of the network. -/
def netFuncs (config : Config) : List (CStr × Script) :=
  if config.networkAuto then [(str "um_net_auto", netBody config)] else []

/-- The network leaves the variables alone. -/
theorem runAll_netScripts {config : Config} (hplain : PlainFuncs true s)
    (h : runAll w n (netScripts config) s = ⟨.done, t⟩) :
    t.funcs = netFuncs config ++ s.funcs ∧ t.vars = s.vars ∧ t.exported = s.exported ∧
      s.trace <+: t.trace := by
  have htrace := @runAll_trace w n (netScripts config) s
  rw [h] at htrace
  by_cases hauto : config.networkAuto = true
  · rw [netScripts, if_pos hauto, runAll_cons, run_define, Result.next_done] at h
    have hcall : ∀ a ∈ [command [lits "um_net_auto"]], a.Plain true = true := by
      intro a ha
      rw [List.mem_singleton.1 ha]
      rfl
    have hfuncs : PlainFuncs true { s with
        funcs := (str "um_net_auto", netBody config) :: s.funcs, status := 0 } := by
      intro f hf
      obtain rfl | hf := List.mem_cons.1 hf
      · exact plain_netBody config
      · exact hplain f hf
    have hkept := @runAll_kept w true n _ hcall _ hfuncs
    rw [h] at hkept
    rw [netFuncs, if_pos hauto]
    exact ⟨hkept.funcs, hkept.vars rfl, hkept.exported rfl, htrace⟩
  · rw [netScripts, if_neg hauto, runAll, Result.mk.injEq] at h
    obtain rfl := h.2
    rw [netFuncs, if_neg hauto]
    exact ⟨rfl, rfl, rfl, htrace⟩

/-! ### The shell in front of the command -/

/-- The functions in front of the command. -/
def wrapperFuncs (r : Request) : List (CStr × Script) :=
  (str "um_session_leader", leaderBody) :: (netFuncs r.config ++ startFuncs r)

theorem lookup_eq_none {β : Type*} {l : List (CStr × β)} (h : name ∉ l.map Prod.fst) :
    l.lookup name = none := by
  induction l with
  | nil => rfl
  | cons x l ih =>
    rw [List.map_cons, List.mem_cons, not_or] at h
    rw [List.lookup_cons, beq_eq_false_iff_ne.2 h.1]
    exact ih h.2

theorem names_wrapperFuncs (r : Request) : (wrapperFuncs r).map Prod.fst = functionNames r := by
  rw [wrapperFuncs, functionNames, netFuncs, startFuncs]
  split_ifs
  all_goals rfl

theorem lookup_wrapperFuncs (h : name ∉ functionNames r) : (wrapperFuncs r).lookup name = none := by
  rw [← names_wrapperFuncs] at h
  exact lookup_eq_none h

/-- None of the commands of the wrapper's end is a function. -/
theorem not_mem_functionNames (r : Request)
    (h : name ∉ [str "um_session_leader", str "um_net_auto", str "um_stop", str "um_fail"]) :
    name ∉ functionNames r := by
  simp only [List.mem_cons, List.not_mem_nil, or_false, not_or] at h
  rw [functionNames]
  split_ifs
  all_goals simp [h]

/-- The shell behind the preparation. -/
structure Prepared (r : Request) (s : State) : Prop where
  funcs : (str "um_session_leader", leaderBody) :: s.funcs = wrapperFuncs r
  env : ∀ name value, passedOn r.environ name = some value → s.env.lookup name = some value
  binds : r.ext4Rootfs = false → ∃ before after, s.trace.map (·.words) =
    before ++ r.config.binds.flatMap bindWords ++ after

theorem prepared (h : runAll w n (preparation r) .start = ⟨.done, s⟩) : Prepared r s := by
  rw [preparation, runAll_append, runAll_append, runAll_append] at h
  obtain ⟨v, hbinds, hnet⟩ := Result.next_eq_done h
  obtain ⟨u, henvironment, hbinds⟩ := Result.next_eq_done hbinds
  obtain ⟨t, hstart, henvironment⟩ := Result.next_eq_done henvironment
  obtain ⟨u', henv, hvars, hexported, hfuncs⟩ := @runAll_environment w n _
    (fun e he => isName_of_allowed he) t
  rw [henv, Result.mk.injEq] at henvironment
  obtain rfl := henvironment.2
  rw [funcs_start hstart] at hfuncs
  have hran : ∃ words, Ran words u' v ∧
      (r.ext4Rootfs = false → words = r.config.binds.flatMap bindWords) := by
    by_cases hext4 : r.ext4Rootfs = true
    · rw [if_pos hext4, runAll, Result.mk.injEq] at hbinds
      obtain rfl := hbinds.2
      exact ⟨[], .refl _, fun hnot => absurd hext4 (by simp [hnot])⟩
    · rw [if_neg hext4] at hbinds
      rw [startFuncs, if_neg hext4] at hfuncs
      exact ⟨_, runAll_binds hfuncs hbinds, fun _ => rfl⟩
  obtain ⟨words, hran, hwords⟩ := hran
  have hplain : PlainFuncs true v := by
    intro f hf
    rw [hran.kept.funcs, hfuncs] at hf
    exact plainFuncs_startFuncs r true f hf
  obtain ⟨hnetFuncs, hnetVars, hnetExported, hnetTrace⟩ := runAll_netScripts hplain hnet
  refine ⟨?_, fun name value hvalue => ?_, fun hext4 => ?_⟩
  · rw [hnetFuncs, hran.kept.funcs, hfuncs, wrapperFuncs]
  · have hname : name ∈ (allowedEnvironment r.environ).map Prod.fst := by
      have hmem := lookup_map_fst hvalue
      rwa [List.map_reverse, List.mem_reverse] at hmem
    apply lookup_env
    · rw [hnetExported, hran.kept.exported rfl, hexported]
      exact List.mem_append_right _ hname
    · rw [hnetVars, hran.kept.vars rfl, hvars]
      exact lookup_append_of_some hvalue
  · obtain ⟨after, hafter⟩ := hnetTrace
    refine ⟨u'.trace.map (·.words), after.map (·.words), ?_⟩
    rw [← hafter, List.map_append, hran.words, hwords hext4]

/-! ### The command -/

/-- The shell that calls the leader. -/
def leading (r : Request) (s : State) : State :=
  { s with
    args := r.guestArgv, funcs := (str "um_session_leader", leaderBody) :: s.funcs, status := 0
    trace := s.trace ++ [cdEvent r s, setEvent r s] }

/-- The shell behind the question for `setsid`. -/
def asked (r : Request) (s : State) (k : ℕ) : State :=
  { (leading r s).log (checkEvent s) with status := k }

/-- The command that executes the argument vector. -/
def chosen (k : ℕ) : Simple :=
  if k = 0 then ⟨[], [lits "setsid", lits "-c", quotedParam "@"], []⟩
  else ⟨[], [quotedParam "@"], []⟩

theorem trace_next_skip (r : Result) (call : Script → State → Result) :
    r.shell.trace <+: (r.next (exec w call .skip)).shell.trace :=
  next_trace (List.prefix_refl _) fun _ => List.prefix_refl _

/-- The leader asks for `setsid` and chooses. -/
theorem exec_leaderBody (hs : Prepared r s)
    (hcheck : w.answer (s.trace ++ [cdEvent r s, setEvent r s]) (checkEvent s) = some k) (n : ℕ) :
    (runSimple w (run w n) (chosen k) (asked r s k)).shell.trace <+:
      (run w (n + 1) leaderBody (leading r s)).shell.trace := by
  have hfields : [lits "command", lits "-v", lits "setsid"].flatMap (expand (leading r s)) =
      [str "command", str "-v", str "setsid"] := by
    rw [fields_lits _ (by decide), fields_lits _ (by decide), fields_lits _ (by decide)]
    rfl
  have hfunc : (leading r s).funcs.lookup (str "command") = none := by
    rw [leading, hs.funcs]
    exact lookup_wrapperFuncs (not_mem_functionNames r (by decide))
  have hask : exec w (run w n) (block [mute [lits "command", lits "-v", lits "setsid"]])
      (leading r s) = ⟨.done, asked r s k⟩ := by
    have hevent : eventOf (leading r s) ⟨[], [lits "command", lits "-v", lits "setsid"],
        [⟨none, .great, lits "/dev/null"⟩, ⟨some '2', .greatAnd, lits "1"⟩]⟩
        [str "command", str "-v", str "setsid"] = checkEvent s := rfl
    rw [exec_block_cons, mute, exec, runSimple_ordinary hfields (by decide) hfunc, hevent,
      runEvent_answer hcheck]
    rfl
  have hbody : run w (n + 1) leaderBody (leading r s) =
      ((exec w (run w n) (block [mute [lits "command", lits "-v", lits "setsid"]])
        (leading r s)).next fun s =>
          if s.status = 0 then
            exec w (run w n) (block [command [lits "setsid", lits "-c", quotedParam "@"]]) s
          else exec w (run w n) (block [command [quotedParam "@"]]) s).next
        (exec w (run w n) .skip) := rfl
  rw [hbody, hask, Result.next_done, chosen]
  refine List.IsPrefix.trans ?_ (trace_next_skip _ _)
  have hstatus : (asked r s k).status = k := rfl
  rw [hstatus]
  split_ifs
  · exact trace_next_skip _ _
  · exact trace_next_skip _ _

/-- Behind the preparation the shell comes to the command. -/
theorem runAll_ending (hs : Prepared r s) (hcd : w.answer s.trace (cdEvent r s) = some 0)
    (hcheck : w.answer (s.trace ++ [cdEvent r s, setEvent r s]) (checkEvent s) = some k) (n : ℕ) :
    (runSimple w (run w n) (chosen k) (asked r s k)).shell.trace <+:
      (runAll w (n + 2) (ending r) s).shell.trace := by
  have hcdFields : [lits "cd", quoteWord r.cwd].flatMap (expand s) = [str "cd", r.cwd] := by
    rw [fields_lits s (by decide), fields_quoteWord]
    rfl
  have hcdFunc : s.funcs.lookup (str "cd") = none := by
    have hfuncs : ((str "um_session_leader", leaderBody) :: s.funcs).lookup (str "cd") = none := by
      rw [hs.funcs]
      exact lookup_wrapperFuncs (not_mem_functionNames r (by decide))
    exact hfuncs
  have hdirectory : run w (n + 2) (.or (command [lits "cd", quoteWord r.cwd])
      (command [lits "exit", lits "126"])) s =
      ⟨.done, { s.log (cdEvent r s) with status := 0 }⟩ := by
    have hevent : eventOf s ⟨[], [lits "cd", quoteWord r.cwd], []⟩ [str "cd", r.cwd] =
        cdEvent r s := rfl
    rw [run_or, command, run_ordinary _ hcdFields (by decide) hcdFunc, hevent,
      runEvent_answer hcd]
    rfl
  have hset : ∀ t : State, run w (n + 2)
      (command ([lits "set", lits "--"] ++ r.guestArgv.map quoteWord)) t =
      ⟨.done, { t.log ⟨str "set" :: str "--" :: r.guestArgv, t.env, []⟩ with
        args := r.guestArgv, status := 0 }⟩ := by
    intro t
    have hfields : ([lits "set", lits "--"] ++ r.guestArgv.map quoteWord).flatMap (expand t) =
        str "set" :: str "--" :: r.guestArgv := by
      rw [List.flatMap_append, fields_two t (by decide) (by decide), fields_quoteWords]
      rfl
    rw [command, run_succ, exec]
    simp only [runSimple, hfields]
    rfl
  have hleader : run w (n + 2) (command [lits "um_session_leader", quotedParam "@"])
      (leading r s) = runFunction (run w (n + 1)) (leading r s) leaderBody r.guestArgv := by
    have hfields : [lits "um_session_leader", quotedParam "@"].flatMap (expand (leading r s)) =
        str "um_session_leader" :: r.guestArgv := by
      rw [fields_lits _ (by decide), List.flatMap_cons, expand_arguments,
        List.flatMap_nil, List.append_nil]
      rfl
    rw [command, run_succ, exec]
    exact runSimple_function hfields (by decide) rfl
  have hstate : ({ { s.log (cdEvent r s) with
      funcs := (str "um_session_leader", leaderBody) :: s.funcs, status := 0 }.log
        (setEvent r s) with args := r.guestArgv, status := 0 } : State) = leading r s := by
    simp [State.log, leading]
  have hrun : runAll w (n + 2) (ending r) s =
      (runFunction (run w (n + 1)) (leading r s) leaderBody r.guestArgv).next
        (runAll w (n + 2) (reportScripts r.statusPath r.ext4Rootfs)) := by
    rw [ending, runAll_append, runAll_cons, hdirectory, Result.next_done, runAll_cons, run_define,
      Result.next_done, runAll_cons, hset, Result.next_done, runAll_cons]
    refine (congrArg (fun t => ((run w (n + 2) (command [lits "um_session_leader",
      quotedParam "@"]) t).next (runAll w (n + 2) [])).next _) hstate).trans ?_
    rw [hleader, Result.next_next]
    rfl
  rw [hrun]
  exact next_trace (exec_leaderBody hs hcheck n) (runAll_trace _ _)

/-! ### The argument vector -/

theorem length_operands_le (words : List CStr) : (operands words).length ≤ words.length := by
  induction words with
  | nil => exact Nat.le_refl _
  | cons word words ih =>
    rw [operands]
    split_ifs
    · exact Nat.le_succ _
    · exact Nat.le_succ_of_le ih
    · exact Nat.le_refl _

/-- Where `setsid` stands in front, the first word of the vector must not be an option. -/
theorem executes_setsid {args : List CStr} :
    Executes (str "setsid" :: str "-c" :: name :: args) (name :: args) ↔
      isOptionWord name = false := by
  have hoption : operands (str "-c" :: name :: args) = operands (name :: args) := by
    rw [operands, if_neg (by decide), if_pos (by decide)]
  constructor
  · intro h
    by_contra hname
    rw [Bool.not_eq_false] at hname
    generalize hwords : str "setsid" :: str "-c" :: name :: args = words at h
    generalize hargv : name :: args = argv at h
    cases h with
    | direct _ =>
      have hlength := congrArg List.length (hwords.trans hargv.symm)
      simp only [List.length_cons] at hlength
      omega
    | setsid _ hoperands =>
      rw [List.cons.injEq] at hwords
      rw [← hwords.2, hoption, operands, if_pos hname, ← hargv] at hoperands
      have hlength := congrArg List.length hoperands
      have hle := length_operands_le args
      split_ifs at hlength
      · simp at hlength
      · rw [List.length_cons] at hlength
        omega
  · intro hname
    have hdashes : name ≠ str "--" := by
      rintro rfl
      revert hname
      decide
    apply Executes.setsid (List.cons_ne_nil _ _)
    rw [hoption, operands, if_neg hdashes, if_neg (by simp [hname])]

/-- The commands that the functions of the wrapper begin with. -/
def firstWords : List CStr := [str "command", str "[", str "sync", str "printf"]

/-- A function of the wrapper begins with a command of its own. -/
theorem first_of_function (h : name ∈ functionNames r) :
    ∃ body c, (wrapperFuncs r).lookup name = some body ∧ body.first? = some c ∧
      IsOrdinary name ∧ ∀ t : State, ∃ word rest, c.words.flatMap (expand t) = word :: rest ∧
        word ∈ firstWords := by
  simp only [functionNames, List.mem_append, List.mem_cons, List.cons_append] at h
  obtain rfl | h | h := h
  · refine ⟨leaderBody, _, rfl, rfl, by decide, fun t => ?_⟩
    exact ⟨_, _, fields_lits t (by decide) _, by decide⟩
  · split_ifs at h with hauto
    · rw [List.mem_singleton] at h
      subst h
      refine ⟨netBody r.config, _, ?_, rfl, by decide, fun t => ?_⟩
      · rw [wrapperFuncs, netFuncs, if_pos hauto]
        rfl
      · exact ⟨_, _, fields_lits t (by decide) _, by decide⟩
    · cases h
  · split_ifs at h with hext4
    · cases h
    · simp only [List.mem_cons, List.not_mem_nil, or_false] at h
      have hlookup : (wrapperFuncs r).lookup name = (startFuncs r).lookup name := by
        rw [wrapperFuncs, netFuncs]
        split_ifs
        all_goals
          obtain rfl | rfl := h
          all_goals rfl
      rw [hlookup, startFuncs, if_neg hext4]
      obtain rfl | rfl := h
      · refine ⟨stopBody, _, rfl, rfl, by decide, fun t => ?_⟩
        exact ⟨_, _, fields_lits t (by decide) _, by decide⟩
      · refine ⟨failBody r.statusPath, _, rfl, rfl, by decide, fun t => ?_⟩
        exact ⟨_, _, fields_lits t (by decide) _, by decide⟩

theorem firstWords_not_mem {word : CStr} (h : word ∈ firstWords) : word ∉ functionNames r := by
  apply not_mem_functionNames
  revert word
  decide

/-- What a function of the wrapper begins with is not the vector. -/
theorem not_executes_of_function {word : CStr} {args rest : List CStr}
    (hname : name ∈ functionNames r) (hword : word ∈ firstWords) :
    ¬ Executes (word :: rest) (name :: args) := by
  intro h
  generalize hwords : word :: rest = words at h
  generalize hargv : name :: args = argv at h
  cases h with
  | direct _ =>
    have heq := hwords.trans hargv.symm
    rw [List.cons.injEq] at heq
    rw [← heq.1] at hname
    exact firstWords_not_mem hword hname
  | setsid _ _ =>
    rw [List.cons.injEq] at hwords
    rw [hwords.1] at hword
    revert hword
    decide

/-- A command that does not name a function of the wrapper is run as it is. -/
theorem run_chosen {r : Request} {s : State} {k : ℕ} {name : CStr} {args : List CStr}
    (hs : Prepared r s) {c : Simple} (hc : c.assigns = []) (t : State)
    (ht : t.funcs = (asked r s k).funcs) (hfields : c.words.flatMap (expand t) = name :: args)
    (hname : name ∉ functionNames r) (call : Script → State → Result) :
    ∃ ev, t.trace ++ [ev] <+: (runSimple w call c t).shell.trace ∧
      ev.words = name :: args ∧ ev.env = t.env := by
  have hfunc : t.funcs.lookup name = none := by
    rw [ht, asked, leading, State.log, hs.funcs]
    exact lookup_wrapperFuncs hname
  refine ⟨_, runSimple_log hfields hfunc, rfl, ?_⟩
  rw [eventOf, hc]
  rfl

/-- Whether the wrapper runs what it has to is seen at the command behind the question. -/
theorem runs_iff_of_event {ev : Event} (hs : Prepared r s) (hev : (asked r s k).trace ++ [ev] <+:
      (runAll w (n + 2) (preparation r ++ ending r) .start).shell.trace) :
    Runs w n r s ↔ Executes ev.words r.guestArgv ∧
      ∀ name value, passedOn r.environ name = some value →
        ev.env.lookup name = some value := by
  have htrace : ∀ ev : Event, (asked r s k).trace ++ [ev] =
      s.trace ++ [cdEvent r s, setEvent r s, checkEvent s, ev] := by
    intro ev
    simp [asked, leading, State.log]
  rw [htrace] at hev
  constructor
  · intro h
    obtain ⟨ev', hev', hexecutes, hvars⟩ := h.vector
    have heq := List.IsPrefix.eq_of_length ((List.prefix_of_prefix_length_le hev' hev) (by simp))
      (by simp)
    simp only [List.append_cancel_left_eq, List.cons.injEq, and_true, true_and] at heq
    exact heq ▸ ⟨hexecutes, hvars⟩
  · rintro ⟨hexecutes, hvars⟩
    exact ⟨compile_umWriteWrapper r, hs.binds, ev, hev, hexecutes, hvars⟩

section Prepared

variable {n k : ℕ} {r : Request} {s : State} {name : CStr} {args : List CStr}

theorem args_asked (hargv : r.guestArgv = name :: args) :
    [quotedParam "@"].flatMap (expand (asked r s k)) = name :: args := by
  rw [List.flatMap_cons, expand_arguments, List.flatMap_nil, List.append_nil]
  exact hargv

/-- A guest with `setsid` runs it with the vector behind an option. -/
theorem event_setsid (hargv : r.guestArgv = name :: args) (hs : Prepared r s)
    (hrun : (runSimple w (run w n) (chosen 0) (asked r s 0)).shell.trace <+:
      (runAll w (n + 2) (preparation r ++ ending r) .start).shell.trace) :
    ∃ ev, (asked r s 0).trace ++ [ev] <+:
        (runAll w (n + 2) (preparation r ++ ending r) .start).shell.trace ∧
      ev.words = str "setsid" :: str "-c" :: name :: args ∧ ev.env = (asked r s 0).env := by
  have hfields : (chosen 0).words.flatMap (expand (asked r s 0)) =
      str "setsid" :: str "-c" :: name :: args := by
    rw [chosen, if_pos rfl, fields_lits _ (by decide), fields_lits _ (by decide),
      args_asked hargv]
  obtain ⟨ev, hev, hwords, henv⟩ := run_chosen hs (c := chosen 0) rfl (asked r s 0) rfl hfields
    (not_mem_functionNames r (by decide)) (run w n)
  exact ⟨ev, hev.trans hrun, hwords, henv⟩

/-- A guest without it runs the vector, or a function of the wrapper. -/
theorem event_direct (hk : k ≠ 0) (hargv : r.guestArgv = name :: args) (hs : Prepared r s)
    (hrun : (runSimple w (run w n) (chosen k) (asked r s k)).shell.trace <+:
      (runAll w (n + 2) (preparation r ++ ending r) .start).shell.trace) :
    ∃ ev, (asked r s k).trace ++ [ev] <+:
        (runAll w (n + 2) (preparation r ++ ending r) .start).shell.trace ∧
      if name ∈ functionNames r then ∃ word rest, ev.words = word :: rest ∧ word ∈ firstWords
      else ev.words = name :: args ∧ ev.env = (asked r s k).env := by
  rw [chosen, if_neg hk] at hrun
  by_cases hname : name ∈ functionNames r
  · obtain ⟨body, c, hlookup, hfirst, hordinary, hbody⟩ := first_of_function hname
    have hfunc : (asked r s k).funcs.lookup name = some body := by
      rw [asked, leading, State.log, hs.funcs]
      exact hlookup
    rw [runSimple_function (args_asked hargv) hordinary hfunc] at hrun
    obtain ⟨word, rest, hfields, hword⟩ := hbody { asked r s k with args := args }
    have hnone : (asked r s k).funcs.lookup word = none := by
      rw [asked, leading, State.log, hs.funcs]
      exact lookup_wrapperFuncs (firstWords_not_mem hword)
    obtain ⟨call, hcall⟩ := @run_first w body c hfirst n { asked r s k with args := args }
    simp only [if_pos hname]
    exact ⟨_, ((runSimple_log hfields hnone).trans hcall).trans hrun, word, rest, rfl, hword⟩
  · obtain ⟨ev, hev, hwords, henv⟩ := @run_chosen w r s k name args hs
      ⟨[], [quotedParam "@"], []⟩ rfl (asked r s k) rfl (args_asked hargv) hname (run w n)
    simp only [if_neg hname]
    exact ⟨ev, hev.trans hrun, hwords, henv⟩

end Prepared

/-- The wrapper runs the requested command exactly where, in a guest with `setsid`, the first
word of the vector is no option of `setsid`, and where, in a guest without it, the word is not
the name of a function of the wrapper. -/
theorem runs_iff {n k : ℕ} {r : Request} {s : State} {name : CStr} {args : List CStr}
    (hargv : r.guestArgv = name :: args)
    (hprep : runAll w (n + 2) (preparation r) .start = ⟨.done, s⟩)
    (hcd : w.answer s.trace (cdEvent r s) = some 0)
    (hcheck : w.answer (s.trace ++ [cdEvent r s, setEvent r s]) (checkEvent s) = some k) :
    Runs w n r s ↔
      if k = 0 then isOptionWord name = false else name ∉ functionNames r := by
  have hs := prepared hprep
  have hrun : (runSimple w (run w n) (chosen k) (asked r s k)).shell.trace <+:
      (runAll w (n + 2) (preparation r ++ ending r) .start).shell.trace := by
    rw [runAll_append, hprep, Result.next_done]
    exact runAll_ending hs hcd hcheck n
  have henv : ∀ name value, passedOn r.environ name = some value →
      (asked r s k).env.lookup name = some value := hs.env
  by_cases hk : k = 0
  · subst hk
    obtain ⟨ev, hev, hwords, hevEnv⟩ := event_setsid hargv hs hrun
    rw [if_pos rfl, runs_iff_of_event hs hev, hwords, hargv, executes_setsid, hevEnv]
    exact and_iff_left henv
  · obtain ⟨ev, hev, hchoice⟩ := event_direct hk hargv hs hrun
    rw [if_neg hk, runs_iff_of_event hs hev, hargv]
    split_ifs at hchoice with hname
    · obtain ⟨word, rest, hwords, hword⟩ := hchoice
      rw [hwords]
      exact iff_of_false (fun h => not_executes_of_function hname hword h.1)
        fun hnot => hnot hname
    · rw [hchoice.1, hchoice.2]
      exact iff_of_true ⟨.direct (List.cons_ne_nil _ _), henv⟩ hname

/-! ### Two commands -/

/-- A world where every command succeeds, except perhaps the question for `setsid`. -/
def agreeable (k : ℕ) : World where
  answer _ ev := some (if ev.words = [str "command", str "-v", str "setsid"] then k else 0)
  readLine _ := none

theorem agreeable_answer (trace : List Event) (ev : Event) :
    (agreeable 0).answer trace ev = some 0 := by
  simp only [agreeable, ite_self]

/-- A request with awkward strings. -/
def awkward (guestArgv : List CStr) : Request where
  cwd := str "/home/a b"
  statusPath := str "/.status"
  config := ⟨[⟨str "/mnt/it's", str "/srv/$x", true⟩], true, str "10.0.2.15", str "10.0.2.2;id",
    true, [], []⟩
  ext4Rootfs := false
  ext4Binds := false
  environ := [str "TERM=a'b\n$c"]
  guestArgv := guestArgv

/-- The shell that has prepared it. -/
def awkwardShell : State := (runAll (agreeable 0) 2 (preparation (awkward [])) .start).shell

/-- The preparation does not depend on the argument vector. -/
theorem preparation_argv (r : Request) (guestArgv : List CStr) :
    preparation { r with guestArgv := guestArgv } = preparation r := rfl

theorem awkward_prepared (guestArgv : List CStr) :
    runAll (agreeable 0) 2 (preparation (awkward guestArgv)) .start = ⟨.done, awkwardShell⟩ := by
  have hdone : (runAll (agreeable 0) 2 (preparation (awkward [])) .start).outcome = .done := by
    rw [preparation, startScripts, fixedScripts, awkward, scriptsOf, scriptsOf, scriptsOf,
      systemMounts, loopback, fixedEnvironment]
    repeat first | rw [str_ofList] | rw [lits_ofList]
    decide +kernel
  have hsame : preparation (awkward guestArgv) = preparation (awkward []) :=
    preparation_argv (awkward []) guestArgv
  rw [hsame, awkwardShell]
  exact Result.eq_of_done hdone

theorem runs_iff_printf : Runs (agreeable 0) 0
    (awkward [str "printf", str "it's", [], str "$HOME"]) awkwardShell ↔
      if 0 = 0 then isOptionWord (str "printf") = false
      else str "printf" ∉ functionNames (awkward [str "printf", str "it's", [], str "$HOME"]) :=
  runs_iff rfl (awkward_prepared _) (agreeable_answer _ _) (agreeable_answer _ _)

/-- A command with a dash in front is one more option of `setsid`. -/
theorem dash_not_run : runAll (agreeable 0) 2 (preparation (awkward [str "-x"])) .start =
    ⟨.done, awkwardShell⟩ ∧ ¬ Runs (agreeable 0) 0 (awkward [str "-x"]) awkwardShell := by
  refine ⟨awkward_prepared _, fun h => ?_⟩
  have hs : Prepared (awkward [str "-x"]) awkwardShell := prepared (awkward_prepared _)
  have hrun : (runSimple (agreeable 0) (run (agreeable 0) 0) (chosen 0)
      (asked (awkward [str "-x"]) awkwardShell 0)).shell.trace <+:
      (runAll (agreeable 0) 2 (preparation (awkward [str "-x"]) ++ ending (awkward [str "-x"]))
        .start).shell.trace := by
    rw [runAll_append, awkward_prepared, Result.next_done]
    exact runAll_ending hs (agreeable_answer _ _) (agreeable_answer _ _) 0
  obtain ⟨ev, hev, hwords, -⟩ := event_setsid (w := agreeable 0) (n := 0) rfl hs hrun
  have hexecutes := ((runs_iff_of_event hs hev).1 h).1
  rw [hwords] at hexecutes
  have hnot := executes_setsid.1 hexecutes
  revert hnot
  decide

end NeoProot.Wrapper
