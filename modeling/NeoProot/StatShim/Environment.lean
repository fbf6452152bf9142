import NeoProot.StatShim.BindMap
import Mathlib.Algebra.Ring.Nat

/-!
# The variables of the stat shim in an environment

Every `execve` of the guest gets the shim and its configuration put back into the
environment.  The environment is an array of pointers to strings in the memory of the
tracee, the last of them NULL.  Moving the array to the stack of the tracee, once it is
complete, stays outside.

## Main definitions

* `XPointer` — an element of the array.
* `injectVariable`, `ldsoInjectStatShimEnv` — the injection.
* `Takes` — the environments the kernel takes.
* `exported_iff` — when the binding map comes through, and costs no `execve`.
-/

namespace NeoProot.StatShim

def argMax : ℕ := 131072

/-- `XPointer`: what stands at the address. -/
inductive XPointer
  | null
  | unreadable (e : Errno)
  | string (s : CStr)
  deriving DecidableEq, Repr

/-- `read_xpointee_as_string`: the status returned, and the string. -/
def readXPointeeAsString : XPointer → Except Errno (ℕ × Option CStr)
  | .null => .ok (0, none)
  | .unreadable e => .error e
  | .string s => if argMax ≤ s.length + 1 then .error .enametoolong else .ok (0, some s)

/-- `is_env_name`. -/
def isEnvName (variable_ name : CStr) : Bool :=
  decide (name.length < variable_.length) && decide (variable_[name.length]? = some '=') &&
    decide (variable_.take name.length = name)

/-- `compare_xpointee_env`. -/
def compareXPointeeEnv (x : XPointer) (name : CStr) : Except Errno Bool :=
  match readXPointeeAsString x with
  | .error e => .error e
  | .ok (_, none) => .ok false
  | .ok (_, some value) => .ok (isEnvName value name)

/-- `find_xpointee` from index `i` on. -/
def findXPointee (name : CStr) : ℕ → List XPointer → Except Errno ℕ
  | _, [] => .error .enoent
  | i, x :: xs =>
    match compareXPointeeEnv x name with
    | .error e => .error e
    | .ok true => .ok i
    | .ok false => findXPointee name (i + 1) xs

/-- `upsert_env_entry`. -/
def upsertEnvEntry (envp : List XPointer) (name entry : CStr) : Except Errno (List XPointer) :=
  match findXPointee name 0 envp with
  | .ok idx => .ok (envp.set idx (.string entry))
  | .error .enoent =>
    -- The new variable goes in front of the NULL.
    .ok (envp.take (envp.length - 1) ++ .string entry :: envp.drop (envp.length - 1))
  | .error e => .error e

/-- `sizeof entry`. -/
def entrySize : ℕ := pathMax + 64

/-- Print an entry, and put it into the array. -/
def injectVariable (envp : List XPointer) (name value : CStr) : Except Errno (List XPointer) :=
  let entry := name ++ '=' :: value
  if entrySize ≤ entry.length then .error .enametoolong else upsertEnvEntry envp name entry

/-- The variables of the shim, in the order they are injected. -/
def variableNames : List CStr :=
  [str "NEOPROOT_STATSHIM_ROOTFS", str "NEOPROOT_STATSHIM_BINDS", str "NEOPROOT_STATSHIM_L2S",
    str "NEOPROOT_STATSHIM_NOTIF", str "NEOPROOT_STATSHIM_UID_REAL",
    str "NEOPROOT_STATSHIM_UID_FAKE", str "NEOPROOT_STATSHIM_GID_REAL",
    str "NEOPROOT_STATSHIM_GID_FAKE"]

/-- `rest`: the libraries the caller preloads already, as far as they fit the buffer. -/
def callerPreload (envp : List XPointer) : CStr :=
  match findXPointee (str "LD_PRELOAD") 0 envp with
  | .error _ => []
  | .ok idx =>
    match envp[idx]?.map readXPointeeAsString with
    | some (.ok (status, some current)) =>
      if 0 < status then ((current.dropWhile (· ≠ '=')).drop 1).take (pathMax - 1) else []
    | _ => []

/-- One round of the loop over the names. -/
def injectNamed (getenv : CStr → Option CStr) (envp : List XPointer) (name : CStr) :
    Except Errno (List XPointer) :=
  match getenv name with
  | none => .ok envp
  | some value => injectVariable envp name value

/-- `ldso_inject_stat_shim_env`, for a tracee with the shim `statShimLib`.  `getenv` is
the environment of the tracer. -/
def ldsoInjectStatShimEnv (getenv : CStr → Option CStr) (statShimLib : CStr)
    (envp : List XPointer) : Except Errno (List XPointer) := do
  let rest := callerPreload envp
  let envp ←
    if statShimLib <:+: rest then .ok envp
    else
      injectVariable envp (str "LD_PRELOAD")
        (statShimLib ++ (if rest ≠ [] then [' '] else []) ++ rest)
  variableNames.foldlM (injectNamed getenv) envp

/-! ### What the kernel takes -/

/-- `MAX_ARG_STRLEN`, terminator included. -/
def maxArgStrlen : ℕ := 131072

/-- What the strings of an environment take of the room for arguments, each with its
terminator and its pointer. -/
def environmentSize (env : List CStr) : ℕ := (env.map fun s => s.length + 1 + 8).sum

/-- The kernel takes an environment whose strings are not too long and for which there
is room. -/
def Takes (room : ℕ) (env : List CStr) : Prop :=
  (∀ s ∈ env, s.length + 1 ≤ maxArgStrlen) ∧ environmentSize env ≤ room

/-- The array of an environment, as `fetch_array_of_xpointers` reads it. -/
def arrayOf (env : List CStr) : List XPointer := env.map .string ++ [.null]

/-- An environment with the first entry of a variable replaced, or with a new entry at
its end. -/
def withEntry (name entry : CStr) : List CStr → List CStr
  | [] => [entry]
  | s :: env => if isEnvName s name then entry :: env else s :: withEntry name entry env

/-- The strings a search for a variable reads. -/
def searched (name : CStr) : List CStr → List CStr
  | [] => []
  | s :: env => s :: (if isEnvName s name then [] else searched name env)

/-! ### The injection of one variable -/

theorem readXPointeeAsString_eq_ok {x : XPointer} {status : ℕ} {s : Option CStr}
    (h : readXPointeeAsString x = .ok (status, s)) : status = 0 := by
  cases x with
  | null =>
    simp only [readXPointeeAsString, Except.ok.injEq, Prod.mk.injEq] at h
    exact h.1.symm
  | unreadable e => simp [readXPointeeAsString] at h
  | string s =>
    rw [readXPointeeAsString] at h
    split at h
    · simp at h
    · simp only [Except.ok.injEq, Prod.mk.injEq] at h
      exact h.1.symm

/-- The test of the status is never met, so what the caller preloads is not kept. -/
theorem callerPreload_eq_nil (envp : List XPointer) : callerPreload envp = [] := by
  rw [callerPreload]
  split
  · rfl
  · split
    · next hread =>
      rw [Option.map_eq_some_iff] at hread
      obtain ⟨x, -, hx⟩ := hread
      rw [readXPointeeAsString_eq_ok hx, if_neg (by omega)]
    · rfl

variable {name entry : CStr}

theorem compareXPointeeEnv_string {s : CStr} (h : s.length + 1 < argMax) :
    compareXPointeeEnv (.string s) name = .ok (isEnvName s name) := by
  rw [compareXPointeeEnv, readXPointeeAsString, if_neg (by omega)]

/-- A search that meets no string too long for the buffer ends at the variable or at the
end. -/
theorem findXPointee_arrayOf {env : List CStr} (h : ∀ s ∈ searched name env, s.length + 1 < argMax)
    (i : ℕ) :
    findXPointee name i (arrayOf env) =
      match env.findIdx? (isEnvName · name) with
      | some k => .ok (i + k)
      | none => .error .enoent := by
  induction env generalizing i with
  | nil => rfl
  | cons s env ih =>
    rw [searched, List.forall_mem_cons] at h
    obtain ⟨hs, hrest⟩ := h
    rw [arrayOf, List.map_cons, List.cons_append, findXPointee, compareXPointeeEnv_string hs,
      List.findIdx?_cons]
    cases hname : isEnvName s name with
    | true => simp
    | false =>
      rw [if_neg (by simp [hname])] at hrest
      change findXPointee name (i + 1) (arrayOf env) = _
      rw [ih hrest]
      cases env.findIdx? (isEnvName · name) with
      | none => rfl
      | some k =>
        simp only [Bool.false_eq_true, if_false, Option.map_some, Except.ok.injEq]
        omega

theorem findXPointee_arrayOf_long {env : List CStr} {s : CStr} (hs : s ∈ searched name env)
    (hlong : argMax ≤ s.length + 1) (i : ℕ) :
    findXPointee name i (arrayOf env) = .error .enametoolong := by
  induction env generalizing i with
  | nil => simp [searched] at hs
  | cons c env ih =>
    rw [searched, List.mem_cons] at hs
    rw [arrayOf, List.map_cons, List.cons_append, findXPointee]
    by_cases hc : argMax ≤ c.length + 1
    · rw [compareXPointeeEnv, readXPointeeAsString, if_pos hc]
    · rw [compareXPointeeEnv_string (by omega)]
      have hne : s ≠ c := fun heq => hc (heq ▸ hlong)
      have hs := hs.resolve_left hne
      cases hname : isEnvName c name with
      | true => simp [hname] at hs
      | false =>
        rw [if_neg (by simp [hname])] at hs
        exact ih hs (i + 1)

theorem withEntry_eq (env : List CStr) :
    withEntry name entry env =
      match env.findIdx? (isEnvName · name) with
      | some k => env.set k entry
      | none => env ++ [entry] := by
  induction env with
  | nil => rfl
  | cons s env ih =>
    rw [withEntry, List.findIdx?_cons]
    cases hname : isEnvName s name with
    | true => rfl
    | false =>
      simp only [Bool.false_eq_true, if_false, ih]
      cases env.findIdx? (isEnvName · name) with
      | none => rfl
      | some k => rfl

/-- **The entry replaces that of its variable or joins the environment at its end.** -/
theorem upsertEnvEntry_arrayOf {env : List CStr}
    (h : ∀ s ∈ searched name env, s.length + 1 < argMax) :
    upsertEnvEntry (arrayOf env) name entry = .ok (arrayOf (withEntry name entry env)) := by
  rw [upsertEnvEntry, findXPointee_arrayOf h, withEntry_eq]
  cases hfind : env.findIdx? (isEnvName · name) with
  | none => simp [arrayOf]
  | some k =>
    have hk : k < env.length := (List.findIdx?_eq_some_iff_findIdx_eq.1 hfind).1
    simp [arrayOf, hk]

theorem mem_of_mem_searched {env : List CStr} {s : CStr} (h : s ∈ searched name env) : s ∈ env := by
  induction env with
  | nil => simp [searched] at h
  | cons c env ih =>
    rw [searched, List.mem_cons] at h
    obtain rfl | h := h
    · simp
    · split at h
      · simp at h
      · exact List.mem_cons_of_mem _ (ih h)

theorem mem_withEntry {env : List CStr} {s : CStr} (h : s ∈ withEntry name entry env) :
    s = entry ∨ s ∈ env := by
  induction env with
  | nil => simpa [withEntry] using h
  | cons c env ih =>
    rw [withEntry] at h
    split at h
    · rw [List.mem_cons] at h
      exact h.imp id (List.mem_cons_of_mem _)
    · rw [List.mem_cons] at h
      obtain rfl | h := h
      · simp
      · exact (ih h).imp id (List.mem_cons_of_mem _)

/-- When a variable can be put into an environment that the kernel takes, so that the
kernel takes the new one as well. -/
theorem injectVariable_iff {env : List CStr} {room : ℕ} {value : CStr} (h : Takes room env) :
    (∃ env', injectVariable (arrayOf env) name value = .ok (arrayOf env') ∧ Takes room env') ↔
      name.length + 1 + value.length < entrySize ∧
        (∀ s ∈ searched name env, s.length + 1 ≠ argMax) ∧
        environmentSize (withEntry name (name ++ '=' :: value) env) ≤ room := by
  have hlen : (name ++ '=' :: value).length = name.length + 1 + value.length := by
    rw [List.length_append, List.length_cons]
    omega
  simp only [injectVariable, hlen]
  by_cases hfits : name.length + 1 + value.length < entrySize
  · rw [if_neg (by omega)]
    by_cases hread : ∀ s ∈ searched name env, s.length + 1 ≠ argMax
    · have hshort : ∀ s ∈ searched name env, s.length + 1 < argMax := by
        intro s hs
        have hle : s.length + 1 ≤ argMax := h.1 s (mem_of_mem_searched hs)
        have hne := hread s hs
        omega
      rw [upsertEnvEntry_arrayOf hshort]
      constructor
      · intro hok
        obtain ⟨env', heq, htakes⟩ := hok
        rw [Except.ok.injEq, arrayOf, arrayOf, List.append_cancel_right_eq] at heq
        have henv : withEntry name (name ++ '=' :: value) env = env' :=
          List.map_injective_iff.2 (fun x y hxy => by simpa using hxy) heq
        rw [henv]
        exact ⟨hfits, hread, htakes.2⟩
      · intro hcond
        refine ⟨_, rfl, fun s hs => ?_, hcond.2.2⟩
        obtain rfl | hs := mem_withEntry hs
        · have hmax : entrySize ≤ maxArgStrlen := by decide
          omega
        · exact h.1 s hs
    · refine iff_of_false (fun hok => ?_) fun hcond => hread hcond.2.1
      push Not at hread
      obtain ⟨s, hs, hlong⟩ := hread
      obtain ⟨env', heq, -⟩ := hok
      rw [upsertEnvEntry, findXPointee_arrayOf_long hs (by omega)] at heq
      simp at heq
  · refine iff_of_false (fun hok => ?_) fun hcond => hfits hcond.1
    obtain ⟨env', heq, -⟩ := hok
    rw [if_pos (by omega)] at heq
    simp at heq

/-! ### The binding map -/

/-- The length of the map. -/
def mapSize (bs : List Binding) : ℕ := (bs.map fun b => b.guest.length + b.host.length + 2).sum

theorem exportBinds_length (bs : List Binding) : (exportBinds bs).length = mapSize bs := by
  rw [exportBinds_eq, List.length_flatMap, mapSize]
  simp only [entryOf_length]

/-- **The binding map comes through whole, and costs no `execve` that the kernel would
take, exactly when no path contains a separator that ends it, the table of the shim has
room for every binding, and the variable fits: into one entry, past strings that can be
read, and into the room that the kernel gives.** -/
theorem exported_iff {t : Bindings} (ht : t.Reachable) (hstored : ∀ b ∈ t.guest, Stored b)
    (room : ℕ) (env : List CStr) :
    ((∀ x, x ∈ parseBinds (exportBinds t.guest) ↔ x ∈ t.guest.map .of) ∧
        (Takes room env →
          ∃ env', injectVariable (arrayOf env) (str "NEOPROOT_STATSHIM_BINDS")
            (exportBinds t.guest) = .ok (arrayOf env') ∧ Takes room env')) ↔
      ((∀ b ∈ t.guest, Separated b) ∧ t.guest.length ≤ maxBinds) ∧
        (Takes room env →
          24 + mapSize t.guest < entrySize ∧
          (∀ s ∈ searched (str "NEOPROOT_STATSHIM_BINDS") env, s.length + 1 ≠ argMax) ∧
          environmentSize (withEntry (str "NEOPROOT_STATSHIM_BINDS")
            (str "NEOPROOT_STATSHIM_BINDS=" ++ exportBinds t.guest) env) ≤ room) := by
  rw [parseBinds_exportBinds_iff hstored ht.wellFormed.unique]
  refine and_congr_right fun _ => forall_congr' fun htakes => ?_
  rw [injectVariable_iff htakes, exportBinds_length]
  have hname : (str "NEOPROOT_STATSHIM_BINDS").length + 1 = 24 := by decide
  have hentry : str "NEOPROOT_STATSHIM_BINDS" ++ '=' :: exportBinds t.guest =
      str "NEOPROOT_STATSHIM_BINDS=" ++ exportBinds t.guest := by
    rw [← List.singleton_append, ← List.append_assoc]
    rfl
  rw [hname, hentry]

/-- A table with one binding next to the root. -/
def tableWith (host guest : CStr) : Bindings :=
  (Bindings.empty.step (.insortBinding3 (str "/r") (str "/"))).step (.insortBinding3 host guest)

theorem tableWith_reachable {host guest : CStr} (h : IsCanonical host ∧ IsCanonical guest) :
    (tableWith host guest).Reachable := by
  refine ⟨[.insortBinding3 (str "/r") (str "/"), .insortBinding3 host guest], ?_, ?_⟩
  · rw [List.forall_mem_cons, List.forall_mem_singleton]
    exact ⟨⟨by decide, by decide⟩, h⟩
  · rw [Run.states_cons, Run.states_cons, Run.states_nil]
    simp [tableWith]

theorem exported_tableWith :
    (∀ x, x ∈ parseBinds (exportBinds (tableWith (str "/y") (str "/n")).guest) ↔
        x ∈ [(⟨str "/n", str "/y"⟩ : Bind), ⟨str "/", str "/r"⟩]) ∧
      (Takes 1000 [str "PATH=/bin"] →
        ∃ env', injectVariable (arrayOf [str "PATH=/bin"]) (str "NEOPROOT_STATSHIM_BINDS")
          (exportBinds (tableWith (str "/y") (str "/n")).guest) = .ok (arrayOf env') ∧
          Takes 1000 env') := by
  have hpairs : (tableWith (str "/y") (str "/n")).guest.map Bind.of =
      [⟨str "/n", str "/y"⟩, ⟨str "/", str "/r"⟩] := by decide +kernel
  rw [← hpairs]
  refine (exported_iff (tableWith_reachable ⟨by decide, by decide⟩) (by decide +kernel) 1000
    [str "PATH=/bin"]).2 ⟨by decide +kernel, fun _ => ⟨by decide +kernel, ?_, by decide +kernel⟩⟩
  decide +kernel

/-- A tab in the guest path of a binding ends the path. -/
theorem exists_not_exported :
    ¬ ∀ (t : Bindings) (room : ℕ) (env : List CStr), t.Reachable → (∀ b ∈ t.guest, Stored b) →
      (∀ x, x ∈ parseBinds (exportBinds t.guest) ↔ x ∈ t.guest.map .of) ∧
        (Takes room env →
          ∃ env', injectVariable (arrayOf env) (str "NEOPROOT_STATSHIM_BINDS")
            (exportBinds t.guest) = .ok (arrayOf env') ∧ Takes room env') := by
  intro hall
  have ht : (tableWith (str "/y") (str "/a\tb")).Reachable :=
    tableWith_reachable ⟨by decide, by decide⟩
  have heq := (hall _ 0 [] ht (by decide +kernel)).1 ⟨str "/a", str "b\t/y"⟩
  exact absurd heq (by decide +kernel)

end NeoProot.StatShim
