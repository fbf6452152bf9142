import NeoProot.StatShim.Environment
import NeoProot.Lib.FirstMatch

/-!
# What the injection does to an environment

The shim goes in front of the libraries that the caller preloads, the configuration of the
tracer replaces that of the caller, and the rest of the environment is not touched.

## Main definitions

* `libraries`, `callerLibraries` — what `LD_PRELOAD` lists.
* `injections` — the variables that are injected, with their values.
* `Injected` — what an injection should make of an environment.
* `injection_keeps_iff` — when it does.
-/

namespace NeoProot.StatShim
open FirstMatch

/-! ### Entries -/

def preloadName : CStr := str "LD_PRELOAD"

/-- An entry of this variable. -/
def named (name : CStr) : XPointer → Bool
  | .string s => isEnvName s name
  | _ => false

/-- The entry of a variable with this value. -/
def assignment (name value : CStr) : XPointer := .string (name ++ '=' :: value)

/-- The entry can be read. -/
def Readable (x : XPointer) : Prop := (readXPointeeAsString x).isOk = true

/-- The libraries of a value of `LD_PRELOAD`, as the dynamic linker tells them apart. -/
def libraries (value : CStr) : List CStr :=
  (value.splitOnP fun c => c = ' ' || c = ':').filter (· ≠ [])

/-- The libraries that an entry of `LD_PRELOAD` lists. -/
def preloaded : XPointer → List CStr
  | .string s => libraries (s.drop (preloadName.length + 1))
  | _ => []

def callerLibraries (xs : List XPointer) : List CStr :=
  (xs.filter (named preloadName)).flatMap preloaded

/-- The variables that are injected, in their order. -/
def injections (getenv : CStr → Option CStr) (statShimLib : CStr) : List (CStr × CStr) :=
  (preloadName, statShimLib) ::
    variableNames.filterMap fun name => (getenv name).map fun value => (name, value)

/-- An entry of no injected variable. -/
def isOther (getenv : CStr → Option CStr) (x : XPointer) : Bool :=
  !named preloadName x && variableNames.all fun name => (getenv name).isNone || !named name x

/-- **What an injection should make of an environment.** -/
structure Injected (getenv : CStr → Option CStr) (statShimLib : CStr) (xs ys : List XPointer) :
    Prop where
  /-- The shim stands in front of every library that the caller listed. -/
  preload : ∃ value, ys.filter (named preloadName) = [assignment preloadName value] ∧
    libraries value =
      libraries statShimLib ++ (callerLibraries xs).filter (· ∉ libraries statShimLib)
  configured : ∀ name ∈ variableNames, ∀ value, getenv name = some value →
    ys.filter (named name) = [assignment name value]
  others : ys.filter (isOther getenv) = xs.filter (isOther getenv)
  again : ldsoInjectStatShimEnv getenv statShimLib (ys ++ [.null]) = .ok (ys ++ [.null])

section

variable {name name' value entry : CStr} {xs : List XPointer} {x : XPointer}

theorem named_assignment_self (name value : CStr) : named name (assignment name value) = true := by
  simp [named, assignment, isEnvName]

theorem takeWhile_of_isEnvName {s : CStr} (h : isEnvName s name = true) (hname : '=' ∉ name) :
    s.takeWhile (· ≠ '=') = name := by
  simp only [isEnvName, Bool.and_eq_true, decide_eq_true_eq] at h
  obtain ⟨⟨hlen, hsign⟩, htake⟩ := h
  have hsplit : s = name ++ '=' :: s.drop (name.length + 1) := by
    obtain ⟨hlt, hget⟩ := List.getElem?_eq_some_iff.1 hsign
    nth_rewrite 1 [← List.take_append_drop name.length s]
    rw [htake, ← List.getElem_cons_drop hlt, hget]
  have hall : ∀ c ∈ name, decide (c ≠ '=') = true := by
    intro c hc
    rw [decide_eq_true_eq]
    rintro rfl
    exact hname hc
  rw [hsplit, List.takeWhile_append_of_pos hall, List.takeWhile_cons_of_neg (by simp),
    List.append_nil]

/-- An entry is of one variable only. -/
theorem named_disjoint (hname : '=' ∉ name) (hname' : '=' ∉ name') (hne : name ≠ name')
    (h : named name x = true) : named name' x = false := by
  cases x with
  | null => rfl
  | unreadable e => rfl
  | string s =>
    rw [named] at h
    rw [Bool.eq_false_iff]
    intro h'
    rw [named] at h'
    exact hne ((takeWhile_of_isEnvName h hname).symm.trans (takeWhile_of_isEnvName h' hname'))

/-! ### One variable -/

theorem compareXPointeeEnv_eq (hread : Readable x) :
    compareXPointeeEnv x name = .ok (named name x) := by
  cases x with
  | null => rfl
  | unreadable e => cases hread
  | string s =>
    rw [Readable, readXPointeeAsString] at hread
    split_ifs at hread with hlong
    · cases hread
    · rw [compareXPointeeEnv, readXPointeeAsString, if_neg hlong, named]

theorem compareXPointeeEnv_error (hread : ¬ Readable x) (hfault : x ≠ .unreadable .enoent) :
    ∃ e, e ≠ .enoent ∧ compareXPointeeEnv x name = .error e := by
  cases x with
  | null => exact absurd rfl hread
  | unreadable e => exact ⟨e, fun he => hfault (he ▸ rfl), rfl⟩
  | string s =>
    refine ⟨.enametoolong, by decide, ?_⟩
    rw [Readable, readXPointeeAsString] at hread
    split_ifs at hread with hlong
    · rw [compareXPointeeEnv, readXPointeeAsString, if_pos hlong]
    · exact absurd rfl hread

theorem findXPointee_eq (hreads : ReadsTo (named name) Readable xs) (i : ℕ) :
    findXPointee name i (xs ++ [.null]) = match xs.findIdx? (named name) with
      | some k => .ok (i + k)
      | none => .error .enoent := by
  induction xs generalizing i with
  | nil => rfl
  | cons x xs ih =>
    rw [List.cons_append, findXPointee, compareXPointeeEnv_eq hreads.1, List.findIdx?_cons]
    cases hx : named name x with
    | true => rfl
    | false =>
      dsimp only
      rw [ih (hreads.2 hx), if_neg Bool.false_ne_true]
      cases xs.findIdx? (named name) with
      | none => rfl
      | some k =>
        simp only [Option.map_some, Except.ok.injEq]
        omega

theorem findXPointee_error (hreads : ¬ ReadsTo (named name) Readable xs)
    (hfault : .unreadable .enoent ∉ xs) (i : ℕ) :
    ∃ e, e ≠ .enoent ∧ findXPointee name i (xs ++ [.null]) = .error e := by
  induction xs generalizing i with
  | nil => exact absurd trivial hreads
  | cons x xs ih =>
    rw [List.mem_cons, not_or] at hfault
    rw [List.cons_append, findXPointee]
    by_cases hx : Readable x
    · rw [compareXPointeeEnv_eq hx]
      cases hnamed : named name x with
      | true => exact absurd ⟨hx, fun h => by simp [hnamed] at h⟩ hreads
      | false => exact ih (fun hrest => hreads ⟨hx, fun _ => hrest⟩) hfault.2 (i + 1)
    · obtain ⟨e, hne, he⟩ := @compareXPointeeEnv_error name x hx (Ne.symm hfault.1)
      exact ⟨e, hne, by rw [he]⟩

/-- **An entry replaces the first of its variable, or joins the environment in front of
the NULL**, if the search reads what it meets. -/
theorem upsertEnvEntry_eq_ok_iff (hfault : .unreadable .enoent ∉ xs) {r : List XPointer} :
    upsertEnvEntry (xs ++ [.null]) name entry = .ok r ↔
      ReadsTo (named name) Readable xs ∧
        r = replaceFirst (named name) (.string entry) xs ++ [.null] := by
  rw [upsertEnvEntry]
  by_cases hreads : ReadsTo (named name) Readable xs
  · rw [findXPointee_eq hreads]
    simp only [hreads, true_and]
    cases hfind : xs.findIdx? (named name) with
    | some k =>
      have hk : k < xs.length := (List.findIdx?_eq_some_iff_findIdx_eq.1 hfind).1
      simp only [Nat.zero_add, Except.ok.injEq, replaceFirst_eq_set hfind,
        List.set_append_left _ _ hk, eq_comm]
    | none =>
      simp only [Except.ok.injEq, replaceFirst_eq_append hfind, List.length_append,
        List.length_singleton, Nat.add_sub_cancel, List.take_left, List.drop_left,
        List.append_assoc, List.cons_append, List.nil_append, eq_comm]
  · obtain ⟨e, hne, he⟩ := findXPointee_error hreads hfault 0
    simp only [he, hreads, false_and, iff_false]
    intro hok
    cases hok

theorem injectVariable_eq_ok_iff (hfault : .unreadable .enoent ∉ xs) {r : List XPointer} :
    injectVariable (xs ++ [.null]) name value = .ok r ↔
      name.length + 1 + value.length < entrySize ∧ ReadsTo (named name) Readable xs ∧
        r = replaceFirst (named name) (assignment name value) xs ++ [.null] := by
  have hlen : (name ++ '=' :: value).length = name.length + 1 + value.length := by
    rw [List.length_append, List.length_cons]
    omega
  simp only [injectVariable, hlen]
  split_ifs with hlong
  · refine iff_of_false (by simp) fun hcond => ?_
    omega
  · rw [upsertEnvEntry_eq_ok_iff hfault, assignment, and_iff_right (Nat.not_le.1 hlong)]

/-! ### All variables -/

theorem readable_assignment (hlen : name.length + 1 + value.length < entrySize) :
    Readable (assignment name value) := by
  have hmax : entrySize < argMax := by decide
  rw [Readable, assignment, readXPointeeAsString, if_neg]
  · rfl
  · rw [List.length_append, List.length_cons]
    omega

/-- **What the injections leave**: the first entry of each of their variables is replaced,
no other entry is, and every search that succeeded still does. -/
theorem foldlM_injectVariable {es : List (CStr × CStr)} {r : List XPointer}
    (hnames : ∀ e ∈ es, '=' ∉ e.1) (hnodup : (es.map Prod.fst).Nodup)
    (hfault : .unreadable .enoent ∉ xs)
    (hok : es.foldlM (fun envp e => injectVariable envp e.1 e.2) (xs ++ [.null]) = .ok r) :
    ∃ ys, r = ys ++ [.null] ∧ .unreadable .enoent ∉ ys ∧
      (∀ e ∈ es, e.1.length + 1 + e.2.length < entrySize ∧
        ys.filter (named e.1) = assignment e.1 e.2 :: (xs.filter (named e.1)).tail ∧
        ReadsTo (named e.1) Readable ys) ∧
      (∀ q : XPointer → Bool, (∀ e ∈ es, ∀ x, named e.1 x = true → q x = false) →
        ys.filter q = xs.filter q) ∧
      ∀ name, '=' ∉ name → name ∉ es.map Prod.fst → ReadsTo (named name) Readable xs →
        ReadsTo (named name) Readable ys := by
  induction es generalizing xs with
  | nil =>
    cases hok
    exact ⟨xs, rfl, hfault, by simp, fun _ _ => rfl, fun _ _ _ hreads => hreads⟩
  | cons e es ih =>
    rw [List.forall_mem_cons] at hnames
    rw [List.map_cons, List.nodup_cons] at hnodup
    rw [List.foldlM_cons] at hok
    cases hstep : injectVariable (xs ++ [.null]) e.1 e.2 with
    | error err =>
      rw [hstep] at hok
      cases hok
    | ok r' =>
      rw [hstep] at hok
      obtain ⟨hlen, hreads, hr'⟩ := (injectVariable_eq_ok_iff hfault).1 hstep
      subst hr'
      have hdisjoint : ∀ e' ∈ es, ∀ x, named e.1 x = true → named e'.1 x = false := by
        intro e' he' x hx
        refine named_disjoint hnames.1 (hnames.2 e' he') (fun heq => ?_) hx
        exact hnodup.1 (heq ▸ List.mem_map_of_mem he')
      have hself := named_assignment_self e.1 e.2
      have hfault' : .unreadable .enoent ∉
          replaceFirst (named e.1) (assignment e.1 e.2) xs := by
        intro hmem
        cases mem_replaceFirst hmem with
        | inl heq => cases heq
        | inr hmem => exact hfault hmem
      obtain ⟨ys, hr, hfaultys, hes, hothers, hkeeps⟩ := ih hnames.2 hnodup.2 hfault' hok
      refine ⟨ys, hr, hfaultys, ?_, fun q hq => ?_, fun name hname hnotin hread => ?_⟩
      · rw [List.forall_mem_cons]
        refine ⟨⟨hlen, ?_, ?_⟩, fun e' he' => ?_⟩
        · rw [hothers (named e.1) fun e' he' x hx => ?_, filter_replaceFirst_self hself]
          rw [Bool.eq_false_iff]
          intro hx'
          rw [hdisjoint e' he' x hx'] at hx
          cases hx
        · refine hkeeps e.1 hnames.1 hnodup.1 ?_
          exact hreads.replaceFirst (readable_assignment hlen) fun _ _ _ => hself
        · obtain ⟨hlen', hfilter, hread'⟩ := hes e' he'
          refine ⟨hlen', ?_, hread'⟩
          rw [hfilter, filter_replaceFirst_of_disjoint (hdisjoint e' he' _ hself)
            (hdisjoint e' he')]
      · rw [List.forall_mem_cons] at hq
        rw [hothers q hq.2, filter_replaceFirst_of_disjoint (hq.1 _ hself) hq.1]
      · rw [List.map_cons, List.mem_cons, not_or] at hnotin
        refine hkeeps name hname hnotin.2 (hread.replaceFirst (readable_assignment hlen) ?_)
        intro x hx hx'
        rw [named_disjoint hnames.1 hname (Ne.symm hnotin.1) hx] at hx'
        cases hx'

/-- Injections that are in their places already change nothing. -/
theorem foldlM_injectVariable_eq_self {es : List (CStr × CStr)} (hfault : .unreadable .enoent ∉ xs)
    (hes : ∀ e ∈ es, e.1.length + 1 + e.2.length < entrySize ∧
      (xs.filter (named e.1)).head? = some (assignment e.1 e.2) ∧
      ReadsTo (named e.1) Readable xs) :
    es.foldlM (fun envp e => injectVariable envp e.1 e.2) (xs ++ [.null]) =
      .ok (xs ++ [.null]) := by
  induction es with
  | nil => rfl
  | cons e es ih =>
    rw [List.forall_mem_cons] at hes
    obtain ⟨hlen, hhead, hreads⟩ := hes.1
    have hstep : injectVariable (xs ++ [.null]) e.1 e.2 = .ok (xs ++ [.null]) := by
      rw [injectVariable_eq_ok_iff hfault, replaceFirst_eq_self hhead]
      exact ⟨hlen, hreads, rfl⟩
    rw [List.foldlM_cons, hstep]
    exact ih hes.2

end

section

variable {getenv : CStr → Option CStr} {statShimLib : CStr} {xs : List XPointer}

/-- The shim replaces what the caller preloads, because the test of the status is never
met. -/
theorem ldsoInjectStatShimEnv_eq (hlib : statShimLib ≠ []) (envp : List XPointer) :
    ldsoInjectStatShimEnv getenv statShimLib envp =
      (injections getenv statShimLib).foldlM (fun envp e => injectVariable envp e.1 e.2) envp := by
  have hnot : ¬ statShimLib <:+: [] := fun hin => hlib (List.infix_nil.1 hin)
  have hloop : ∀ envp', variableNames.foldlM (injectNamed getenv) envp' =
      (variableNames.filterMap fun name => (getenv name).map fun value => (name, value)).foldlM
        (fun envp e => injectVariable envp e.1 e.2) envp' := by
    intro envp'
    rw [List.foldlM_filterMap]
    congr 1
    funext envp name
    rw [injectNamed]
    cases getenv name with
    | none => rfl
    | some value => rfl
  rw [ldsoInjectStatShimEnv, injections, List.foldlM_cons]
  simp only [callerPreload_eq_nil, hnot, if_false, ne_eq, not_true_eq_false, List.append_nil,
    hloop]
  rfl

theorem mem_injections {e : CStr × CStr} : e ∈ injections getenv statShimLib ↔
    e = (preloadName, statShimLib) ∨ e.1 ∈ variableNames ∧ getenv e.1 = some e.2 := by
  rw [injections, List.mem_cons, List.mem_filterMap]
  refine or_congr Iff.rfl ⟨fun hmem => ?_, fun hmem => ?_⟩
  · obtain ⟨name, hname, heq⟩ := hmem
    rw [Option.map_eq_some_iff] at heq
    obtain ⟨value, hvalue, rfl⟩ := heq
    exact ⟨hname, hvalue⟩
  · exact ⟨e.1, hmem.1, by rw [hmem.2, Option.map_some]⟩

theorem injections_names : ∀ e ∈ injections getenv statShimLib, '=' ∉ e.1 := by
  have hnames : ∀ name ∈ preloadName :: variableNames, '=' ∉ name := by decide
  intro e he
  refine hnames e.1 ?_
  cases mem_injections.1 he with
  | inl heq => exact heq ▸ List.mem_cons_self
  | inr hmem => exact List.mem_cons_of_mem _ hmem.1

theorem injections_nodup : ((injections getenv statShimLib).map Prod.fst).Nodup := by
  have hnodup : (preloadName :: variableNames).Nodup := by decide
  have hsub : ∀ names : List CStr,
      ((names.filterMap fun name => (getenv name).map fun value => (name, value)).map
        Prod.fst).Sublist names := by
    intro names
    induction names with
    | nil => exact List.Sublist.slnil
    | cons name names ih =>
      rw [List.filterMap_cons]
      cases getenv name with
      | none => exact ih.cons name
      | some value => exact ih.cons_cons name
  rw [injections, List.map_cons]
  exact ((hsub variableNames).cons_cons preloadName).nodup hnodup

/-- **When an injection keeps the environment of the caller**: the caller preloads nothing
but the shim, and sets no injected variable twice.  Reading a string of the tracee never
fails with the errno of a search that finds nothing. -/
theorem injection_keeps_iff (hlib : statShimLib ≠ []) (hfault : .unreadable .enoent ∉ xs)
    {r : List XPointer} (hok : ldsoInjectStatShimEnv getenv statShimLib (xs ++ [.null]) = .ok r) :
    (∃ ys, r = ys ++ [.null] ∧ Injected getenv statShimLib xs ys) ↔
      (∀ library ∈ callerLibraries xs, library ∈ libraries statShimLib) ∧
        (xs.filter (named preloadName)).length ≤ 1 ∧
        ∀ name ∈ variableNames, getenv name ≠ none → (xs.filter (named name)).length ≤ 1 := by
  rw [ldsoInjectStatShimEnv_eq hlib] at hok
  obtain ⟨ys, rfl, hfaultys, hes, hothers, -⟩ :=
    foldlM_injectVariable injections_names injections_nodup hfault hok
  have hpreload := (hes (preloadName, statShimLib) (mem_injections.2 (.inl rfl))).2.1
  have hconfigured : ∀ name ∈ variableNames, ∀ value, getenv name = some value →
      ys.filter (named name) = assignment name value :: (xs.filter (named name)).tail :=
    fun name hname value hvalue =>
      (hes (name, value) (mem_injections.2 (.inr ⟨hname, hvalue⟩))).2.1
  have hsingle : ∀ (a : XPointer) (l : List XPointer), a :: l.tail = [a] ↔ l.length ≤ 1 := by
    intro a l
    rw [List.cons_inj_right, ← List.length_eq_zero_iff, List.length_tail]
    omega
  have hempty : libraries statShimLib = libraries statShimLib ++
      (callerLibraries xs).filter (· ∉ libraries statShimLib) ↔
        ∀ library ∈ callerLibraries xs, library ∈ libraries statShimLib := by
    rw [List.self_eq_append_right, List.filter_eq_nil_iff]
    simp only [decide_eq_true_eq, not_not]
  constructor
  · rintro ⟨ys', heq, hinjected⟩
    rw [List.append_cancel_right_eq] at heq
    subst heq
    obtain ⟨value, hone, hlibraries⟩ := hinjected.preload
    rw [hpreload, List.cons.injEq, assignment, assignment, XPointer.string.injEq,
      List.append_cancel_left_eq, List.cons.injEq] at hone
    obtain ⟨⟨-, rfl⟩, htail⟩ := hone
    refine ⟨hempty.1 hlibraries, ?_, fun name hname hset => ?_⟩
    · rw [← hsingle (assignment preloadName statShimLib), htail]
    · obtain ⟨value, hvalue⟩ := Option.ne_none_iff_exists'.1 hset
      have hconf := hinjected.configured name hname value hvalue
      rw [hconfigured name hname value hvalue, hsingle] at hconf
      exact hconf
  · rintro ⟨hnone, hone, hones⟩
    refine ⟨ys, rfl, ⟨statShimLib, ?_, hempty.2 hnone⟩, fun name hname value hvalue => ?_, ?_, ?_⟩
    · rw [hpreload, hsingle]
      exact hone
    · rw [hconfigured name hname value hvalue, hsingle]
      exact hones name hname (by simp [hvalue])
    · refine hothers _ fun e he x hx => ?_
      rw [isOther]
      cases mem_injections.1 he with
      | inl heq =>
        rw [heq] at hx
        rw [hx, Bool.not_true, Bool.false_and]
      | inr hmem =>
        rw [Bool.and_eq_false_iff, List.all_eq_false]
        exact .inr ⟨e.1, hmem.1, by simp [hmem.2, hx]⟩
    · rw [ldsoInjectStatShimEnv_eq hlib]
      refine foldlM_injectVariable_eq_self hfaultys fun e he => ?_
      obtain ⟨hlen, hfilter, hreads⟩ := hes e he
      exact ⟨hlen, by rw [hfilter, List.head?_cons], hreads⟩

end

/-! ### Concrete environments -/

/-- A tracer that sets one variable of the shim. -/
def rootfsOnly (name : CStr) : Option CStr :=
  if name = str "NEOPROOT_STATSHIM_ROOTFS" then some (str "/r") else none

/-- An environment that preloads this library. -/
def preloading (library : CStr) : List XPointer :=
  [.string (str "PATH=/bin"), assignment preloadName library]

theorem injection_keeps_shim : ∃ ys,
    [.string (str "PATH=/bin"), assignment preloadName (str "/s.so"),
      assignment (str "NEOPROOT_STATSHIM_ROOTFS") (str "/r")] ++ [.null] = ys ++ [.null] ∧
        Injected rootfsOnly (str "/s.so") (preloading (str "/s.so")) ys := by
  have hlib : str "/s.so" ≠ [] := by decide
  have hfault : .unreadable .enoent ∉ preloading (str "/s.so") := by decide
  exact (injection_keeps_iff hlib hfault (by decide +kernel)).2
    ⟨by decide +kernel, by decide +kernel, by decide +kernel⟩

/-- The library of the caller is lost. -/
theorem injection_drops_library :
    ldsoInjectStatShimEnv rootfsOnly (str "/s.so") (preloading (str "/a.so") ++ [.null]) =
        .ok ([.string (str "PATH=/bin"), assignment preloadName (str "/s.so"),
          assignment (str "NEOPROOT_STATSHIM_ROOTFS") (str "/r")] ++ [.null]) ∧
      ¬ Injected rootfsOnly (str "/s.so") (preloading (str "/a.so"))
        [.string (str "PATH=/bin"), assignment preloadName (str "/s.so"),
          assignment (str "NEOPROOT_STATSHIM_ROOTFS") (str "/r")] := by
  refine ⟨by decide +kernel, fun hinjected => ?_⟩
  obtain ⟨value, hone, hlibraries⟩ := hinjected.preload
  have hshim : [.string (str "PATH=/bin"), assignment preloadName (str "/s.so"),
      assignment (str "NEOPROOT_STATSHIM_ROOTFS") (str "/r")].filter (named preloadName) =
        [assignment preloadName (str "/s.so")] := by decide +kernel
  rw [hshim, List.cons.injEq, assignment, assignment, XPointer.string.injEq,
    List.append_cancel_left_eq, List.cons.injEq] at hone
  rw [← hone.1.2] at hlibraries
  exact absurd hlibraries (by decide +kernel)

end NeoProot.StatShim
