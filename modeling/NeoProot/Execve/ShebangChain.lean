import NeoProot.Execve.ShebangLines
import NeoProot.Execve.AoxpEdits
import Mathlib.Logic.Relation
import Mathlib.Algebra.Ring.Nat

/-!
# Chains of interpreters

A script names an interpreter, which can be a script again.  The tracer follows the chain
itself, and edits one array of arguments on the way; the kernel starts over with every
script.

## Main definitions

* `World.interpreter`, `rounds` — the chain, as the kernel follows it.
* `Alike` — the tracer sees a file of the chain as the kernel does.
* `HoldsArgv` — an array of the tracee's memory with its strings.
* `expandShebang_meets` — the expansion is what the kernel does.
-/

namespace NeoProot.Shebang
open Aoxp Mem PagedMemory

variable {xs : List XPointer} {m : TraceeMemory}

/-! ### The chain -/

/-- The interpreter that the kernel finds in a file. -/
def World.interpreter (w : World) (path : Bytes) : Option Bytes :=
  match w.openExec path with
  | .error _ => none
  | .ok content =>
    match loadScript content with
    | .ok (some (name, _)) => some name
    | _ => none

/-- One file of the chain names the next. -/
def World.Names (w : World) (path name : Bytes) : Prop := w.interpreter path = some name

/-- How many scripts follow each other whose interpreter can be opened, `n` at most. -/
def rounds (w : World) : ℕ → Bytes → ℕ
  | 0, _ => 0
  | n + 1, path =>
    match w.interpreter path with
    | none => 0
    | some name => if (w.openExec name).isOk then rounds w n name + 1 else 0

/-- **The tracer sees the file as the kernel does**: `access` fails with one of two errors;
the file is neither a directory nor written by somebody; and a script can be read, and its
text reads alike. -/
structure Alike (w : World) (path : Bytes) : Prop where
  access : ∀ host e, w.translate path = .ok host → w.access host = some e →
    e = .enoent ∨ e = .eacces
  regular : ∀ host, w.translate path = .ok host → w.access host = none →
    (w.file host).directory = false ∧ (w.file host).busy = false
  readable : ∀ host, w.translate path = .ok host → w.access host = none →
    (w.file host).content.take 2 = magic → (w.file host).refused = none
  text : ∀ host, w.translate path = .ok host → w.access host = none →
    (w.file host).content.take 2 = magic → ReadAlike (scriptText (w.file host).content)

variable {w : World} {t : Tracer} {fetched argv : Option (List XPointer)} {n : ℕ}
  {path content name argument : Bytes} {e : ExecError}

/-- What the tracer finds where the kernel finds an error. -/
theorem Alike.check_of_error (h : Alike w path) (hne : path ≠ [])
    (hopen : w.openExec path = .error e) : w.translateAndCheckExec path = .error e := by
  rw [World.openExec] at hopen
  rw [World.translateAndCheckExec, if_neg hne]
  cases htranslate : w.translate path with
  | error e' =>
    rw [htranslate] at hopen
    exact hopen
  | ok host =>
    rw [htranslate] at hopen
    dsimp only at hopen ⊢
    cases haccess : w.access host with
    | some e' =>
      rw [haccess] at hopen
      dsimp only at hopen ⊢
      rw [← hopen]
      obtain rfl | rfl := h.access host e' htranslate haccess
      · rfl
      · rfl
    | none =>
      obtain ⟨hregular, hbusy⟩ := h.regular host htranslate haccess
      rw [haccess] at hopen
      dsimp only at hopen
      rw [hregular, hbusy, if_neg Bool.false_ne_true, if_neg Bool.false_ne_true] at hopen
      cases hopen

/-- What the tracer finds where the kernel finds a file. -/
theorem Alike.check_of_ok (h : Alike w path) (hne : path ≠ [])
    (hopen : w.openExec path = .ok content) :
    ∃ host, w.translateAndCheckExec path = .ok host ∧ (w.file host).directory = false ∧
      (w.file host).content = content ∧
      (content.take 2 = magic →
        (w.file host).refused = none ∧ ReadAlike (scriptText content)) := by
  rw [World.openExec] at hopen
  rw [World.translateAndCheckExec, if_neg hne]
  cases htranslate : w.translate path with
  | error e' =>
    rw [htranslate] at hopen
    cases hopen
  | ok host =>
    rw [htranslate] at hopen
    dsimp only at hopen ⊢
    cases haccess : w.access host with
    | some e' =>
      rw [haccess] at hopen
      cases hopen
    | none =>
      obtain ⟨hregular, hbusy⟩ := h.regular host htranslate haccess
      rw [haccess] at hopen
      dsimp only at hopen ⊢
      rw [hregular, hbusy, if_neg Bool.false_ne_true, if_neg Bool.false_ne_true,
        Except.ok.injEq] at hopen
      refine ⟨host, rfl, hregular, hopen, fun hscript => ?_⟩
      rw [← hopen] at hscript ⊢
      exact ⟨h.readable host htranslate haccess hscript,
        h.text host htranslate haccess hscript⟩

/-! ### A round -/

theorem expandLoop_of_error (h : Alike w path) (hne : path ≠ [])
    (hopen : w.openExec path = .error e) : expandLoop w t fetched (n + 1) path argv = .error e := by
  rw [expandLoop, h.check_of_error hne hopen]

/-- The last file of the chain is found, unless it cannot be read. -/
theorem expandLoop_of_not_script (h : Alike w path) (hne : path ≠ [])
    (hopen : w.openExec path = .ok content) (hscript : ¬ content.take 2 = magic)
    {result : Bytes × Option (List XPointer)}
    (hok : expandLoop w t fetched (n + 1) path argv = .ok result) : result = (path, argv) := by
  obtain ⟨host, hcheck, hregular, hcontent, -⟩ := h.check_of_ok hne hopen
  rw [expandLoop, hcheck] at hok
  dsimp only at hok
  rw [World.readStart, hregular, hcontent] at hok
  cases hrefused : (w.file host).refused with
  | some e' =>
    rw [hrefused] at hok
    cases hok
  | none =>
    rw [hrefused] at hok
    dsimp only at hok
    rw [if_neg Bool.false_ne_true, (not_script_alike hscript).2, Except.ok.injEq] at hok
    exact hok.symm

/-- A script is read, and its interpreter is looked at. -/
theorem expandLoop_of_script (h : Alike w path) (hne : path ≠ [])
    (hopen : w.openExec path = .ok content) (hscript : content.take 2 = magic)
    (hread : extractShebang (content.take binprmBufSize) = some (name, argument)) :
    expandLoop w t fetched (n + 1) path argv =
      match w.translateAndCheckExec name with
      | .error e => .error e
      | .ok _ =>
        match argv.or fetched with
        | none => .error (.of .efault)
        | some xs =>
          match insertScript t xs name argument path with
          | .error e => .error (.of e)
          | .ok xs => expandLoop w t fetched n name (some xs) := by
  obtain ⟨host, hcheck, hregular, hcontent, hreadable⟩ := h.check_of_ok hne hopen
  rw [expandLoop, hcheck]
  dsimp only
  rw [World.readStart, hregular, hcontent, (hreadable hscript).1]
  dsimp only
  rewrite [if_neg Bool.false_ne_true, hread]
  rfl

theorem writeXPointees_ok {index : ℕ} {strings : List Bytes}
    (hroom : index + strings.length ≤ xs.length) :
    (writeXPointees xs index strings).2 = .ok () := by
  induction strings generalizing xs index with
  | nil => rfl
  | cons s strings ih =>
    rw [List.length_cons] at hroom
    rw [writeXPointees, writeXPointeeAsString, if_neg (by omega)]
    apply ih
    rw [List.length_set]
    omega

/-- What is put in front of the arguments. -/
def inserted (name : Bytes) (argument : Option Bytes) (path : Bytes) : List Bytes :=
  name :: argument.toList ++ [path]

/-- **A round replaces the first argument.** -/
theorem insertScript_spec {x : Entry} {es : List Entry} (hxs : xs.map XPointer.entry = x :: es)
    (hname : 0 ∉ name) (hargument : 0 ∉ argument) (hpath : 0 ∉ path) :
    ∃ ys, insertScript t xs name argument path = .ok ys ∧ ys.map XPointer.entry =
      (inserted name (if argument = [] then none else some argument) path).map Entry.string ++
        es := by
  have hlength : xs.length = es.length + 1 := by
    rw [← List.length_map XPointer.entry, hxs, List.length_cons]
  have hround : ∀ (delta : ℕ) (strings : List Bytes), strings.length = delta + 1 →
      0 < delta → ∃ ys, writeXPointees (resizeArray t xs 0 delta) 0 strings = (ys, .ok ()) ∧
        ys.map XPointer.entry =
          writeEntries (List.replicate delta (.address 0) ++ x :: es) 0 strings := by
    intro delta strings hcount hpos
    have hresize : (resizeArray t xs 0 delta).map XPointer.entry =
        List.replicate delta (.address 0) ++ x :: es := by
      rw [map_entry_resizeArray fun hneg => absurd hneg (by omega), hxs, resizeEntries,
        if_pos (by omega), List.take_zero, List.nil_append, List.drop_zero, Int.toNat_natCast]
    have hroom : 0 + strings.length ≤ (resizeArray t xs 0 delta).length := by
      rw [← List.length_map XPointer.entry, hresize, List.length_append, List.length_replicate,
        List.length_cons]
      omega
    refine ⟨(writeXPointees (resizeArray t xs 0 delta) 0 strings).1, ?_, ?_⟩
    · rw [← writeXPointees_ok hroom]
    · rw [map_entry_writeXPointees, hresize]
  by_cases hnone : argument = []
  · obtain ⟨ys, hys, hmap⟩ := hround 1 [name, path] rfl (by decide)
    have hone : (1 : ℤ) = (1 : ℕ) := rfl
    refine ⟨ys, ?_, ?_⟩
    · rw [insertScript, if_neg (not_not_intro hnone), hone, hys]
    · rw [hmap, if_pos hnone]
      simp [inserted, writeEntries, nativeStrdup_eq hname, nativeStrdup_eq hpath]
  · obtain ⟨ys, hys, hmap⟩ := hround 2 [name, argument, path] rfl (by decide)
    have htwo : (2 : ℤ) = (2 : ℕ) := rfl
    refine ⟨ys, ?_, ?_⟩
    · rw [insertScript, if_pos hnone, htwo, hys]
    · rw [hmap, if_neg hnone]
      simp [inserted, writeEntries, nativeStrdup_eq hname, nativeStrdup_eq hargument,
        nativeStrdup_eq hpath, List.replicate]

/-! ### All rounds -/

/-- The arguments of the call that are left: the first gives way to the first script. -/
def kept {α : Type*} (front : List Bytes) (l : List α) : List α :=
  if front = [] then l else l.tail

/-- The array that the tracer works on: new strings, the addresses that are left, and NULL.
It is fetched with the first script. -/
structure Carries (fetched : Option (List XPointer)) (addrs : List ℕ) (front : List Bytes)
    (argv : Option (List XPointer)) : Prop where
  array : ∃ xs, argv.or fetched = some xs ∧ xs.map XPointer.entry =
    front.map Entry.string ++ ((kept front addrs).map Entry.address ++ [.address 0])
  bytes : ∀ s ∈ front, 0 ∉ s
  fresh : argv = none ↔ front = []

/-- The expansion of a chain and what the kernel does with it. -/
def Meets (fetched : Option (List XPointer)) (addrs : List ℕ) (strs : List Bytes)
    (kernel : Except ExecError (Bytes × List Bytes))
    (expansion : Except ExecError (Bytes × Option (List XPointer))) : Prop :=
  (∀ e, kernel = .error e → expansion = .error e) ∧
    ∀ path argv, expansion = .ok (path, argv) → ∃ front,
      kernel = .ok (path, front ++ kept front strs) ∧ Carries fetched addrs front argv

variable {addrs : List ℕ} {strs front : List Bytes} {k : ℕ}

theorem Meets.of_error : Meets fetched addrs strs (.error e) (.error e) :=
  ⟨fun e' he => congrArg Except.error (Except.error.inj he), fun path argv hok => by cases hok⟩

theorem map_kept {α β : Type*} (f : α → β) (l : List α) :
    (kept front l).map f = kept front (l.map f) := by
  rw [kept, kept]
  split_ifs
  · rfl
  · rw [List.map_tail]

theorem kept_inserted {α : Type*} (l : List α) {argument : Option Bytes} :
    kept (inserted name argument path ++ front) l = l.tail :=
  if_neg (List.cons_ne_nil _ _)

theorem rounds_succ_of_none (h : w.interpreter path = none) : rounds w (n + 1) path = 0 := by
  rw [rounds, h]

theorem rounds_succ_of_closed (hnames : w.interpreter path = some name)
    (hopen : w.openExec name = .error e) : rounds w (n + 1) path = 0 := by
  rw [rounds, hnames]
  dsimp only
  rw [hopen]
  rfl

theorem rounds_succ_of_open (hnames : w.interpreter path = some name)
    (hopen : w.openExec name = .ok content) : rounds w (n + 1) path = rounds w n name + 1 := by
  rw [rounds, hnames]
  dsimp only
  rw [hopen]
  rfl

theorem interpreter_of_load {argument : Option Bytes} (hopen : w.openExec path = .ok content)
    (hload : loadScript content = .ok (some (name, argument))) :
    w.interpreter path = some name := by
  rw [World.interpreter, hopen]
  dsimp only
  rw [hload]

theorem not_mem_inserted {argument : Option Bytes} (hname : 0 ∉ name)
    (hargument : ∀ s ∈ argument, 0 ∉ s) (hpath : 0 ∉ path) :
    ∀ s ∈ inserted name argument path, 0 ∉ s := by
  intro s hs
  rw [inserted, List.cons_append, List.mem_cons, List.mem_append, Option.mem_toList,
    List.mem_singleton] at hs
  obtain rfl | hs | rfl := hs
  · exact hname
  · exact hargument s hs
  · exact hpath

/-- The front of the array grows by a script, and its first entry goes. -/
theorem tail_front {α : Type*} (f : Bytes → α) {l : List α} (hl : l ≠ []) (rest : List α) :
    (front.map f ++ (kept front l ++ rest)).tail =
      front.tail.map f ++ (l.tail ++ rest) := by
  cases front with
  | nil =>
    cases l with
    | nil => exact absurd rfl hl
    | cons a as => rfl
  | cons s front => rfl

/-- A file that is no script ends the chain. -/
theorem meets_of_not_script (h : Alike w path) (hne : path ≠ [])
    (hopen : w.openExec path = .ok content) (hscript : ¬ content.take 2 = magic)
    (hcarries : Carries fetched addrs front argv) :
    Meets fetched addrs strs (execLoop w (k + 1) path content (front ++ kept front strs))
      (expandLoop w t fetched (n + 1) path argv) := by
  rw [execLoop, (not_script_alike hscript).1]
  dsimp only
  refine ⟨fun e he => (by cases he), fun path' argv' hok => ?_⟩
  have hend := expandLoop_of_not_script h hne hopen hscript hok
  rw [Prod.mk.injEq] at hend
  rw [hend.1, hend.2]
  exact ⟨front, rfl, hcarries⟩

/-- Both fail at a script that names no interpreter. -/
theorem meets_of_no_interpreter (h : Alike w path) (hne : path ≠ [])
    (hopen : w.openExec path = .ok content) (hscript : content.take 2 = magic)
    (hread : extractShebang (content.take binprmBufSize) = some ([], argument))
    (hload : loadScript content = .error .noexec) (args : List Bytes) :
    Meets fetched addrs strs (execLoop w (k + 1) path content args)
      (expandLoop w t fetched (n + 1) path argv) := by
  have hloop : expandLoop w t fetched (n + 1) path argv = .error .noexec := by
    rw [expandLoop_of_script h hne hopen hscript hread]
    rfl
  rw [hloop, execLoop, hload]
  exact .of_error

/-- Both fail at an interpreter that cannot be opened. -/
theorem meets_of_closed {argument' : Option Bytes} (h : Alike w path) (hne : path ≠ [])
    (hopen : w.openExec path = .ok content) (hscript : content.take 2 = magic)
    (hread : extractShebang (content.take binprmBufSize) = some (name, argument))
    (hload : loadScript content = .ok (some (name, argument'))) (hnext : Alike w name)
    (hname : name ≠ []) (hopen' : w.openExec name = .error e) (args : List Bytes) :
    Meets fetched addrs strs (execLoop w (k + 1) path content args)
      (expandLoop w t fetched (n + 1) path argv) := by
  rw [expandLoop_of_script h hne hopen hscript hread, hnext.check_of_error hname hopen',
    execLoop, hload]
  dsimp only
  rw [hopen']
  exact .of_error

/-- The kernel's arguments after a script. -/
theorem execLoop_of_script {argument' : Option Bytes} {content' : Bytes} (hstrs : strs ≠ [])
    (hload : loadScript content = .ok (some (name, argument')))
    (hopen' : w.openExec name = .ok content') :
    execLoop w k path content (front ++ kept front strs) =
      execLoop w (k - 1) name content' (inserted name argument' path ++ front.tail ++
        kept (inserted name argument' path ++ front.tail) strs) := by
  have hargv : (front ++ kept front strs).tail = front.tail ++ strs.tail := by
    have h := @tail_front front _ id strs hstrs []
    rw [List.map_id, List.map_id, List.append_nil, List.append_nil] at h
    exact h
  rw [kept_inserted, List.append_assoc, ← hargv]
  cases k with
  | zero => rfl
  | succ k =>
    rw [execLoop, hload]
    dsimp only
    rw [hopen', inserted, List.append_assoc, List.singleton_append]
    rfl

/-- The tracer's array after a script. -/
theorem Carries.insertScript (h : Carries fetched addrs front argv) (haddrs : addrs ≠ [])
    (hname : 0 ∉ name) (hargument : 0 ∉ argument) (hpath : 0 ∉ path) :
    ∃ xs ys, argv.or fetched = some xs ∧ insertScript t xs name argument path = .ok ys ∧
      Carries fetched addrs
        (inserted name (if argument = [] then none else some argument) path ++ front.tail)
        (some ys) := by
  obtain ⟨⟨xs, hxs, hmap⟩, hbytes, -⟩ := h
  cases hentries : xs.map XPointer.entry with
  | nil =>
    rw [hentries] at hmap
    simp at hmap
  | cons x es =>
    obtain ⟨ys, hys, hinserted⟩ := insertScript_spec (t := t) hentries hname hargument hpath
    have htail := @tail_front front _ Entry.string _
      (mt List.map_eq_nil_iff.1 haddrs : addrs.map Entry.address ≠ []) [.address 0]
    rw [← map_kept, ← hmap, hentries, List.tail_cons] at htail
    refine ⟨xs, ys, hxs, hys, ⟨ys, rfl, ?_⟩, fun s hs => ?_,
      iff_of_false (Option.some_ne_none ys) (List.cons_ne_nil _ _)⟩
    · rw [hinserted, htail, kept_inserted]
      simp
    · rw [List.mem_append] at hs
      cases hs with
      | inl hs =>
        refine not_mem_inserted hname (fun a ha => ?_) hpath s hs
        split_ifs at ha
        · cases ha
        · cases ha
          exact hargument
      | inr hs => exact hbytes s (List.mem_of_mem_tail hs)

/-- **The expansion follows the kernel's chain.**  The induction is on the rounds that are
left to the tracer; the kernel has at most as many handlers left, and either the chain ends
within them or it is too long for the tracer too.  Only a script whose interpreter can be
opened takes the place of the first argument. -/
theorem expandLoop_meets (hstrs : rounds w n path ≠ 0 → strs ≠ [])
    (hlength : addrs.length = strs.length)
    (halike : ∀ p, Relation.ReflTransGen w.Names path p → Alike w p) (hne : path ≠ [])
    (hpath : 0 ∉ path) (hopen : w.openExec path = .ok content) (hk : k ≤ n)
    (hrounds : rounds w n path < k ∨ rounds w n path = n)
    (hcarries : Carries fetched addrs front argv) :
    Meets fetched addrs strs (execLoop w k path content (front ++ kept front strs))
      (expandLoop w t fetched n path argv) := by
  induction n generalizing k path content front argv with
  | zero =>
    rw [Nat.le_zero.1 hk, execLoop, expandLoop]
    exact .of_error
  | succ n ih =>
    have hhere := halike path .refl
    -- A chain that ends here does so for the kernel, which has a handler left.
    have hleft : rounds w (n + 1) path = 0 → ∃ k', k = k' + 1 := fun hzero =>
      Nat.exists_eq_succ_of_ne_zero (by omega)
    by_cases hscript : content.take 2 = magic
    · obtain ⟨_, -, -, -, halikeText⟩ := hhere.check_of_ok hne hopen
      obtain ⟨hload, argument, hread⟩ | ⟨name, argument, hname, hzero, hzero', hread, hload⟩ :=
        read_alike hscript (halikeText hscript).2
      · obtain ⟨k', rfl⟩ := hleft (rounds_succ_of_none (by
          rw [World.interpreter, hopen]
          dsimp only
          rw [hload]))
        exact meets_of_no_interpreter hhere hne hopen hscript hread hload _
      · have hnames : w.interpreter path = some name := interpreter_of_load hopen hload
        have hnext := halike name (.single hnames)
        cases hopen' : w.openExec name with
        | error e =>
          obtain ⟨k', rfl⟩ := hleft (rounds_succ_of_closed hnames hopen')
          exact meets_of_closed hhere hne hopen hscript hread hload hnext hname hopen' _
        | ok content' =>
          obtain ⟨host, hcheck, -⟩ := hnext.check_of_ok hname hopen'
          have hnextRounds := rounds_succ_of_open (n := n) hnames hopen'
          clear hleft
          have hstrs' : strs ≠ [] := hstrs (by omega)
          have haddrs : addrs ≠ [] := by
            rwa [← List.length_pos_iff_ne_nil, hlength, List.length_pos_iff_ne_nil]
          obtain ⟨xs, ys, hxs, hys, hcarries'⟩ :=
            hcarries.insertScript (t := t) haddrs hzero hzero' hpath
          rw [expandLoop_of_script hhere hne hopen hscript hread, hcheck, hxs]
          dsimp only
          rw [hys, execLoop_of_script hstrs' hload hopen']
          exact ih (fun _ => hstrs') (fun p hp => halike p (.head hnames hp)) hname hzero hopen'
            (by omega) (by omega) hcarries'
    · obtain ⟨k', rfl⟩ := hleft (rounds_succ_of_none (by
        rw [World.interpreter, hopen]
        dsimp only
        rw [(not_script_alike hscript).1]))
      exact meets_of_not_script hhere hne hopen hscript hcarries

/-- Without a script that is followed there is nothing to push. -/
theorem none_of_rounds_eq_zero {argv' : Option (List XPointer)} {path' : Bytes}
    (halike : ∀ p, Relation.ReflTransGen w.Names path p → Alike w p) (hne : path ≠ [])
    (hopen : w.openExec path = .ok content) (hzero : rounds w (n + 1) path = 0)
    (hok : expandLoop w t fetched (n + 1) path none = .ok (path', argv')) : argv' = none := by
  have hhere := halike path .refl
  by_cases hscript : content.take 2 = magic
  · obtain ⟨_, -, -, -, halikeText⟩ := hhere.check_of_ok hne hopen
    obtain ⟨-, argument, hread⟩ | ⟨name, argument, hname, -, -, hread, hload⟩ :=
      read_alike hscript (halikeText hscript).2
    · rw [expandLoop_of_script hhere hne hopen hscript hread] at hok
      cases hok
    · have hnames : w.interpreter path = some name := interpreter_of_load hopen hload
      cases hopen' : w.openExec name with
      | error e =>
        rw [expandLoop_of_script hhere hne hopen hscript hread,
          (halike name (.single hnames)).check_of_error hname hopen'] at hok
        cases hok
      | ok content' =>
        rw [rounds_succ_of_open hnames hopen'] at hzero
        exact absurd hzero (Nat.succ_ne_zero _)
  · exact (Prod.mk.inj (expandLoop_of_not_script hhere hne hopen hscript hok)).2

/-! ### The strings of an array -/

/-- **The words at an address point to the strings, and NULL follows.** -/
structure HoldsArgv (m : TraceeMemory) (addr : ℕ) (strs : List Bytes) : Prop where
  strings : ∀ i s, strs[i]? = some s → wordAt m (addr + i * wordSize) ≠ 0 ∧ 0 ∉ s ∧
    m.values (wordAt m (addr + i * wordSize)) (s.length + 1) = s ++ [0]
  null : wordAt m (addr + strs.length * wordSize) = 0

/-- The bytes that an entry takes behind the addresses. -/
def size : Entry → ℕ
  | .address _ => 0
  | .string s => s.length + 1

theorem length_strings (xs : List XPointer) :
    (Aoxp.strings xs).flatten.length = ((xs.map XPointer.entry).map size).sum := by
  induction xs with
  | nil => rfl
  | cons x xs ih =>
    rw [List.map_cons, List.map_cons, List.sum_cons, ← ih]
    cases hx : x.replaced with
    | none =>
      have hentry : x.entry = .address x.remote := by
        rw [XPointer.entry, hx]
      rw [strings_cons_none hx, hentry, size, Nat.zero_add]
    | some s =>
      have hentry : x.entry = .string s := by
        rw [XPointer.entry, hx]
      rw [strings_cons_some hx, hentry, size, List.flatten_cons, List.length_append,
        List.length_append, List.length_singleton]

theorem entry_fetched (a : ℕ) : XPointer.entry ⟨a, none⟩ = .address a := by
  rw [XPointer.entry, XPointer.replaced, ite_self]

/-- The array that the tracer fetches has an address for every string. -/
theorem HoldsArgv.addresses {addr fuel : ℕ} (h : HoldsArgv m addr strs)
    (hfetch : fetchArray m addr fuel = some xs) :
    ∃ addrs : List ℕ, xs.map XPointer.entry = addrs.map Entry.address ++ [.address 0] ∧
      addrs.length = strs.length ∧
      ∀ i a, addrs[i]? = some a → a = wordAt m (addr + i * wordSize) := by
  obtain ⟨words, rfl, hwords, addrs, rfl, hzero⟩ := fetchLoop_spec hfetch
  have hword : ∀ i a, (addrs ++ [0])[i]? = some a → a = wordAt m (addr + i * wordSize) :=
    fun i a ha => by
      have hat := hwords i a ha
      rw [Nat.zero_add] at hat
      exact hat
  have hin : ∀ i a, addrs[i]? = some a → a = wordAt m (addr + i * wordSize) := fun i a ha =>
    hword i a (by rw [List.getElem?_append_left (List.getElem?_eq_some_iff.1 ha).1, ha])
  refine ⟨addrs, ?_, ?_, hin⟩
  · have hmap : (XPointer.entry ∘ fun a => (⟨a, none⟩ : XPointer)) = Entry.address :=
      funext entry_fetched
    rw [List.map_map, hmap, List.map_append, List.map_singleton]
  · by_contra hne
    by_cases hlt : addrs.length < strs.length
    · have hnull := hword addrs.length 0 List.getElem?_concat_length
      exact (h.strings _ _ (List.getElem?_eq_getElem hlt)).1 hnull.symm
    · have hmore : strs.length < addrs.length := by omega
      have hnull := hin _ _ (List.getElem?_eq_getElem hmore)
      rw [h.null] at hnull
      exact hzero (hnull ▸ List.getElem_mem hmore)

/-- The bytes that the kernel's arguments take in the new array: the addresses, and the
strings that come from the scripts. -/
def pushedSize (strs argv : List Bytes) : ℕ :=
  wordSize * (argv.length + 1) +
    ((argv.take (argv.length - strs.tail.length)).map fun s => s.length + 1).sum

/-- A string that the tracer puts into the array is not at NULL. -/
theorem wordAt_string_ne {base i : ℕ} {s : Bytes}
    (hs : (xs.map XPointer.entry)[i]? = some (.string s))
    (hbase : base + (wordSize * xs.length + (Aoxp.strings xs).flatten.length) < 256 ^ wordSize) :
    wordAt (m.put base (((pod base (wordSize * xs.length) xs).map
      (LittleEndian.encode wordSize)).flatten ++ (Aoxp.strings xs).flatten))
        (base + i * wordSize) ≠ 0 := by
  rw [List.getElem?_map, Option.map_eq_some_iff] at hs
  obtain ⟨x, hx, hentry⟩ := hs
  have hlt : i < xs.length := (List.getElem?_eq_some_iff.1 hx).1
  rw [wordAt_put (getElem?_pod hx)]
  cases hreplaced : x.replaced with
  | none =>
    rw [XPointer.entry, hreplaced] at hentry
    cases hentry
  | some s' =>
    have hle := (strings_at hx hreplaced).1
    have hpos : 0 < wordSize * xs.length := Nat.mul_pos (by decide) (by omega)
    dsimp only
    rw [Nat.mod_eq_of_lt (by omega)]
    omega

theorem pushArray_arg {regs regs' : Regs} (hsome : Aoxp.strings xs ≠ [])
    (hpush : pushArray t regs xs = .ok (m, regs')) :
    regs'.arg = allocMem regs (wordSize * xs.length + (Aoxp.strings xs).flatten.length) := by
  rw [pushArray, if_neg hsome] at hpush
  dsimp only at hpush
  generalize allocMem regs (wordSize * xs.length + (Aoxp.strings xs).flatten.length) = base
    at hpush ⊢
  split_ifs at hpush
  cases hwrite : writevData t.access t.memory base
      (((pod base (wordSize * xs.length) xs).map (LittleEndian.encode wordSize)).flatten ::
        Aoxp.strings xs) with
  | mk m' ok =>
    rw [hwrite] at hpush
    cases ok with
    | false => cases hpush
    | true =>
      dsimp only at hpush
      rw [Except.ok.injEq, Prod.mk.injEq] at hpush
      rw [← hpush.2]

/-- **The pushed array holds the strings of the scripts and the arguments that are left**, if
none of these lies where the array goes. -/
theorem holdsArgv_push {regs regs' : Regs} (hsp : regs.sp < 256 ^ wordSize)
    (hargv : HoldsArgv t.memory regs.arg strs) (hlength : addrs.length = strs.length)
    (haddrs : ∀ i a, addrs[i]? = some a → a = wordAt t.memory (regs.arg + i * wordSize))
    (hxs : xs.map XPointer.entry =
      front.map Entry.string ++ (addrs.tail.map Entry.address ++ [.address 0]))
    (hfront : front ≠ []) (hbytes : ∀ s ∈ front, 0 ∉ s) (hapart : ∀ i s, strs[i]? = some s →
      regs.sp ≤ wordAt t.memory (regs.arg + i * wordSize) ∨
        wordAt t.memory (regs.arg + i * wordSize) + (s.length + 1) ≤
          allocMem regs (pushedSize strs (front ++ strs.tail)))
    (hpush : pushArray t regs xs = .ok (m, regs')) :
    HoldsArgv m regs'.arg (front ++ strs.tail) := by
  have hcount : xs.length = (front ++ strs.tail).length + 1 := by
    rw [← List.length_map XPointer.entry, hxs]
    simp only [List.length_append, List.length_map, List.length_tail, List.length_singleton]
    omega
  have htake : (front ++ strs.tail).take ((front ++ strs.tail).length - strs.tail.length) =
      front := by
    rw [List.length_append, Nat.add_sub_cancel, List.take_left]
  have hsize : wordSize * xs.length + (Aoxp.strings xs).flatten.length =
      pushedSize strs (front ++ strs.tail) := by
    have hzeros : ∀ l : List ℕ, ((l.map Entry.address).map size).sum = 0 := fun l => by
      induction l with
      | nil => rfl
      | cons a l ih =>
        rw [List.map_cons, List.map_cons, List.sum_cons, ih]
        rfl
    rw [pushedSize, htake, length_strings, hxs, hcount, List.map_append, List.map_append,
      List.sum_append, List.sum_append, hzeros, List.map_map]
    rfl
  have hsome : Aoxp.strings xs ≠ [] := by
    rw [ne_eq, strings_eq_nil, not_not, hxs]
    cases front with
    | nil => exact absurd rfl hfront
    | cons s front => exact ⟨s, List.mem_cons_self⟩
  have hbase := pushArray_arg hsome hpush
  rw [hsize] at hbase
  obtain ⟨hnone, -⟩ | ⟨-, hle, rfl⟩ := pushArray_cases hpush
  · exact absurd hnone hsome
  have hfits : ∀ e ∈ xs.map XPointer.entry, e.FitsWord := by
    intro e he
    rw [hxs, List.mem_append, List.mem_append, List.mem_map, List.mem_map,
      List.mem_singleton] at he
    obtain ⟨s, -, rfl⟩ | ⟨a, ha, rfl⟩ | rfl := he
    · trivial
    · obtain ⟨i, hi⟩ := List.mem_iff_getElem?.1 (List.mem_of_mem_tail ha)
      rw [haddrs i a hi]
      have hlt := LittleEndian.decode_lt
        (t.memory.values (regs.arg + i * wordSize) wordSize)
      rw [length_values] at hlt
      exact hlt
    · exact Nat.pow_pos (by decide)
  have hdata : (((pod regs'.arg (wordSize * xs.length) xs).map
      (LittleEndian.encode wordSize)).flatten ++ (Aoxp.strings xs).flatten).length =
        wordSize * xs.length + (Aoxp.strings xs).flatten.length := by
    rw [List.length_append, LittleEndian.length_flatten_encode, length_pod]
  have hshows := @shows_put xs t.memory regs'.arg hfits (by omega)
  refine ⟨fun i s hs => ?_, ?_⟩
  · by_cases hlt : i < front.length
    · rw [List.getElem?_append_left hlt] at hs
      have hentry : (xs.map XPointer.entry)[i]? = some (.string s) := by
        rw [hxs, List.getElem?_append_left (by rw [List.length_map]; exact hlt),
          List.getElem?_map, hs, Option.map_some]
      exact ⟨wordAt_string_ne hentry (by omega), hbytes s (List.mem_of_getElem? hs),
        hshows i _ hentry⟩
    · rw [List.getElem?_append_right (by omega), List.getElem?_tail] at hs
      have hplace : i - front.length + 1 < addrs.length := by
        rw [hlength]
        exact (List.getElem?_eq_some_iff.1 hs).1
      obtain ⟨a, ha⟩ : ∃ a, addrs[i - front.length + 1]? = some a :=
        ⟨_, List.getElem?_eq_getElem hplace⟩
      have hentry : (xs.map XPointer.entry)[i]? = some (.address a) := by
        rw [hxs, List.getElem?_append_right (by rw [List.length_map]; omega), List.length_map,
          List.getElem?_append_left (by rw [List.length_map, List.length_tail]; omega),
          List.getElem?_map, List.getElem?_tail, ha, Option.map_some]
      have hword := hshows i _ hentry
      obtain ⟨hne, hzero, hvalues⟩ := hargv.strings _ s hs
      have hclear := hapart _ s hs
      rw [← haddrs _ a ha] at hne hvalues hclear
      rw [Denotes] at hword
      rw [hword]
      refine ⟨hne, hzero, ?_⟩
      rw [values_put_outside (by rw [hdata]; omega), hvalues]
  · have hentry : (xs.map XPointer.entry)[(front ++ strs.tail).length]? =
        some (.address 0) := by
      rw [hxs, List.getElem?_append_right (by
          rw [List.length_map, List.length_append]
          omega), List.length_map,
        List.getElem?_append_right (by
          rw [List.length_map, List.length_append, List.length_tail, List.length_tail]
          omega), List.length_map, List.length_append, List.length_tail, List.length_tail,
        hlength, Nat.add_sub_cancel_left, Nat.sub_self]
      rfl
    exact hshows _ _ hentry

/-! ### The whole expansion -/

/-- **The expansion is the kernel's**: it fails with the kernel's error, and where it does not
fail the path is the kernel's, and the array holds the kernel's arguments. -/
def FollowsKernel (w : World) (t : Tracer) (regs : Regs) (fuel : ℕ) (path : Bytes)
    (strs : List Bytes) : Prop :=
  (∀ e, execScript w path strs = .error e → expandShebang w t regs fuel path = .error e) ∧
    ∀ out, expandShebang w t regs fuel path = .ok out → ∃ argv,
      execScript w path strs = .ok (out.userPath, argv) ∧ HoldsArgv out.memory out.regs.arg argv

/-- **Where the expansion is the kernel's**: there is a path; the tracer sees every file of
the chain as the kernel does; and the chain has as many scripts as the kernel follows, or more
than the tracer does.  Where a script is followed there is a first argument too, and no
argument lies where the new array goes. -/
structure Expandable (w : World) (t : Tracer) (regs : Regs) (path : Bytes)
    (strs : List Bytes) : Prop where
  path_ne : path ≠ []
  strs_ne : Shebang.rounds w maxSymlinks path ≠ 0 → strs ≠ []
  alike : ∀ p, Relation.ReflTransGen w.Names path p → Alike w p
  rounds : rounds w maxSymlinks path < maxHandlers ∨ rounds w maxSymlinks path = maxSymlinks
  apart : Shebang.rounds w maxSymlinks path ≠ 0 →
    ∀ path' argv, execScript w path strs = .ok (path', argv) → ∀ i s, strs[i]? = some s →
      regs.sp ≤ wordAt t.memory (regs.arg + i * wordSize) ∨
        wordAt t.memory (regs.arg + i * wordSize) + (s.length + 1) ≤
          allocMem regs (pushedSize strs argv)

/-- A script `/s` and a program `/b`. -/
def scriptWorld (script : Bytes) : World where
  translate path := if path = [47, 115] ∨ path = [47, 98] then .ok path else .error .enoent
  access _ := none
  file path := ⟨false, false, none, if path = [47, 115] then script else [127, 69, 76, 70]⟩

/-- A tracer over two pages: at 64 the addresses 512 and 528, and NULL, and at these the
strings `s` and `x`. -/
def scriptTracer : Tracer where
  access := ⟨true, true⟩
  memory :=
    { pageSize := 4096
      isMapped := (· < 2)
      value := fun a =>
        if a = 512 then 115 else if a = 528 then 120
        else (([512, 528, 0].map (LittleEndian.encode wordSize)).flatten)[a - 64]?.getD 0
      pageSize_pos := Mem.pageSize_4096_pos }
  leftBehind := fun xs _ i => (xs[i]?).getD .zero

/-- The stack pointer at 2048, and the array at 64. -/
def scriptRegs : Regs := ⟨2048, 2048, 64⟩

theorem scriptTracer_argv : HoldsArgv scriptTracer.memory scriptRegs.arg [[115], [120]] := by
  refine ⟨fun i s hs => ?_, by decide +kernel⟩
  match i, s, hs with
  | 0, _, rfl => decide +kernel
  | 1, _, rfl => decide +kernel

end NeoProot.Shebang
