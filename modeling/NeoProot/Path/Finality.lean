import NeoProot.Path.Rounds
import NeoProot.Path.Resolve
import NeoProot.Syscall.PivotRoot

/-!
# Finality

A path that ends in a slash, in `.` or in `..` asks for a directory.  `canonicalize` is to say so
at the end of its result, and `chop_finality` to take it away again.  The result of
`canonicalize` is the place that the path leads to, with a suffix that depends on the path
alone; `finality_iff` says when that suffix and `chop_finality` do as they should.

## Main definitions

* `AsksDirectory`, `HasFinality` — a path asks for a directory, a result says so.
* `destination` — the place that a path leads to.
-/

namespace NeoProot
open Segments

variable {place : List CStr} {comp guestPath path userPath : CStr} {fin last : Finality}
  {call : CStr → CStr → ℕ → Except Errno CStr}

/-- The user path ends in slashes, in `.` or in `..`. -/
def AsksDirectory (userPath : CStr) : Prop :=
  userPath.getLast? = some '/' ∨ (names userPath).getLast? = some (str ".") ∨
    (names userPath).getLast? = some (str "..")

/-- The result ends in `/` or in `/.`. -/
def HasFinality (path : CStr) : Prop := path.getLast? = some '/' ∨ str "/." <:+ path

instance (path : CStr) : Decidable (HasFinality path) := inferInstanceAs (Decidable (_ ∨ _))

instance (userPath : CStr) : Decidable (AsksDirectory userPath) :=
  inferInstanceAs (Decidable (_ ∨ _))

/-- A canonical path without `.` and `..`. -/
def IsPlace (path : CStr) : Prop := ∃ place, path = render place ∧ ∀ c ∈ place, IsEntry c

/-- The finality of a user path. -/
def userFinality (userPath : CStr) : Finality :=
  if names userPath = [] then .finalNormal
  else if (names userPath).getLast? = some (str ".") then .finalDot
  else if (names userPath).getLast? = some (str "..") then .finalSlash
  else lastFinality userPath

/-- The place that a user path leads to: what the loop of `canonicalize` ends with on level 0. -/
def destination (w : World) (userPath : CStr) (derefFinal : Bool) (guestPath : CStr) :
    Except Errno CStr :=
  if pathMax ≤ userPath.length then .error .enametoolong
  else
    (canonicalizeLoop w (fun path => canonicalizeFrom w w.maxSymlinks path true) derefFinal 0 0
      (if IsAbsolute userPath ∨ ¬ IsAbsolute guestPath then ['/'] else guestPath) .notFinal
      (nextComponents userPath.length userPath)).map (·.1)

/-! ### Links of descriptors -/

/-- The number of a process is a name. -/
theorem isEntry_pid (pid : ℕ) : IsEntry (str (toString (pid : ℤ))) := by
  have hdigits : ∀ c ∈ str (toString (pid : ℤ)), c.isDigit = true := by
    intro c hc
    have hrepr : str (toString (pid : ℤ)) = Nat.toDigits 10 pid := Nat.toList_repr
    rw [hrepr] at hc
    exact Nat.isDigit_of_mem_toDigits (by decide) (by decide) hc
  have hnot : ∀ c : Char, c.isDigit = false → c ∉ str (toString (pid : ℤ)) := by
    intro c hfalse hc
    rw [hdigits c hc] at hfalse
    cases hfalse
  refine ⟨⟨?_, hnot '/' (by decide)⟩, ?_, ?_⟩
  · intro hnil
    have hrepr : str (toString (pid : ℤ)) = Nat.toDigits 10 pid := Nat.toList_repr
    rw [hrepr] at hnil
    exact Nat.toDigits_ne_nil hnil
  · intro h
    exact hnot '.' (by decide) (by rw [h]; decide)
  · intro h
    exact hnot '.' (by decide) (by rw [h]; decide)

/-- What is in front of the first slash. -/
theorem takeWhile_name {c s : CStr} (hc : '/' ∉ c) (hs : s.head? = some '/' ∨ s = []) :
    (c ++ s).takeWhile (· ≠ '/') = c := by
  have hname : ∀ a ∈ c, decide (a ≠ '/') = true := by
    intro a ha
    rw [decide_eq_true_eq]
    intro h
    exact hc (h ▸ ha)
  rw [List.takeWhile_append_of_pos hname]
  obtain hs | hs := hs
  · obtain ⟨t, rfl⟩ := List.head?_eq_some_iff.1 hs
    simp
  · simp [hs]

/-- A path below `/proc` whose first name is `self`. -/
theorem self_place (hnames : ∀ c ∈ place, IsName c)
    (hproc : comparePaths (str "/proc") (render place) = .path1IsPrefix)
    (hself : ((render place).drop 6).take 4 = str "self")
    (hend : (render place)[10]? = some '/' ∨ (render place)[10]? = none) :
    ∃ rest, place = str "proc" :: str "self" :: rest ∧
      (render place).drop 10 = flat '/' rest := by
  have hcomps : comps (str "/proc") = [str "proc"] := by decide
  have hbelow : [str "proc"] <+: place ∧ [str "proc"] ≠ place := by
    rw [comparePaths, comparePaths2_eq (by decide) (render_absolute place), comps_render hnames,
      hcomps, compareComps] at hproc
    split at hproc
    · cases hproc
    · split at hproc
      · exact ⟨‹_›, ‹_›⟩
      · split at hproc <;> cases hproc
  obtain ⟨below, rfl⟩ := hbelow.1
  cases below with
  | nil => exact absurd rfl hbelow.2
  | cons c rest =>
    have hdrop : (render ([str "proc"] ++ c :: rest)).drop 6 = c ++ flat '/' rest := by
      rw [render_of_ne (by simp)]
      rfl
    have htail : (flat '/' rest).head? = some '/' ∨ flat '/' rest = [] := by
      cases rest with
      | nil => exact .inr rfl
      | cons d rest => exact .inl rfl
    have hten : (c ++ flat '/' rest).drop 4 = (render ([str "proc"] ++ c :: rest)).drop 10 := by
      rw [← hdrop, List.drop_drop]
    have hrest : ((c ++ flat '/' rest).drop 4).head? = some '/' ∨
        (c ++ flat '/' rest).drop 4 = [] := by
      rw [hten]
      obtain h | h := hend
      · exact .inl (by rw [List.head?_drop, h])
      · exact .inr (List.drop_eq_nil_of_le (List.getElem?_eq_none_iff.1 h))
    have hc : c = str "self" := by
      have hleft := takeWhile_name (hnames c (by simp)).2 htail
      have hright := takeWhile_name (c := str "self") (by decide) hrest
      rw [← hdrop] at hleft hright
      rw [← hself, List.take_append_drop] at hright
      exact hleft.symm.trans (hright.trans hself)
    subst hc
    exact ⟨rest, rfl, by rw [← hten]; rfl⟩

/-- A path that is below `/proc/self`, with the number of the tracee. -/
def procBase (tracee : Tracee) (base : CStr) : CStr :=
  if (base.drop 6).take 4 = str "self" ∧ (base[10]? = some '/' ∨ base[10]? = none) then
    procPath tracee.pid ++ base.drop 10
  else base

/-- `readlink_proc` only leaves descriptors unresolved. -/
theorem readlinkProc_eq_stop {tracee : Tracee} {getTracee : ℤ → Option Tracee} {base result : CStr}
    {comparison : Comparison}
    (h : readlinkProc tracee getTracee base comp comparison = .ok (.dontCanonicalize result)) :
    comparison = .path1IsPrefix ∧ comp ≠ [] ∧ result = procBase tracee base ++ '/' :: comp := by
  cases comparison with
  | pathsAreEqual =>
    rw [readlinkProc] at h
    split at h <;> cases h
  | path1IsPrefix =>
    simp only [readlinkProc, ← procBase.eq_def] at h
    generalize procBase tracee base = base' at h ⊢
    split at h
    · cases h
    · split at h
      · cases h
      · split at h
        · split at h
          · cases h
          · repeat' split at h
            all_goals cases h
        · split at h
          · split at h
            · cases h
            · rename_i hnumber
              split at h
              · cases h
              · rw [Except.ok.injEq, Action.dontCanonicalize.injEq] at h
                refine ⟨rfl, ?_, h.symm⟩
                intro hnil
                rw [hnil] at hnumber
                exact hnumber (by decide)
          · cases h
        · cases h
  | path2IsPrefix => simp [readlinkProc] at h
  | pathsAreNotComparable => simp [readlinkProc] at h

/-- The path of a descriptor, which `readlink_proc` does not resolve, is a place. -/
theorem readlinkProc_stop {tracee : Tracee} {getTracee : ℤ → Option Tracee} {result : CStr}
    (hplace : ∀ c ∈ place, IsEntry c) (hcomp : comp = [] ∨ IsEntry comp)
    (h : readlinkProc tracee getTracee (render place) comp
      (comparePaths (str "/proc") (render place)) = .ok (.dontCanonicalize result)) :
    IsPlace result := by
  have hnames : ∀ c ∈ place, IsName c := fun c hc => (hplace c hc).1
  obtain ⟨hcmp, hne, rfl⟩ := readlinkProc_eq_stop h
  have hentry : IsEntry comp := hcomp.resolve_left hne
  -- the path of the directory is a place below the root
  have hbase : ∃ dirs, dirs ≠ [] ∧ procBase tracee (render place) = flat '/' dirs ∧
      ∀ c ∈ dirs, IsEntry c := by
    rw [procBase]
    split
    · rename_i hself
      obtain ⟨rest, rfl, hrest⟩ := self_place hnames hcmp hself.1 hself.2
      refine ⟨str "proc" :: str (toString (tracee.pid : ℤ)) :: rest, by simp, ?_, ?_⟩
      · rw [hrest, procPath]
        rfl
      · intro c hc
        obtain rfl | rfl | hc := by simpa using hc
        · exact hplace _ (by simp)
        · exact isEntry_pid tracee.pid
        · exact hplace c (by simp [hc])
    · have hroot : place ≠ [] := by
        intro hnil
        rw [hnil] at hcmp
        exact absurd hcmp (by decide)
      exact ⟨place, hroot, render_of_ne hroot, hplace⟩
  obtain ⟨dirs, hdirs, hflat, hentries⟩ := hbase
  refine ⟨dirs ++ [comp], ?_, entries_concat hentries hentry⟩
  rw [hflat, render_of_ne (by simp), flat_append]
  simp

/-! ### The finality that the loop ends with -/

/-- The finality behind the last of some components. -/
def endFinality (last : Finality) (ns : List CStr) : Finality :=
  if ns.getLast? = some (str ".") then .finalDot
  else if ns.getLast? = some (str "..") then .finalSlash
  else last

section Loop

variable {w : World} {derefFinal : Bool} {recursionLevel : ℕ}

theorem IsPlace.root : IsPlace ['/'] := ⟨[], rfl, by simp⟩

theorem IsPlace.pop (h : IsPlace path) : IsPlace (popComponent path) := by
  obtain ⟨place, rfl, hplace⟩ := h
  rw [popComponent_render fun c hc => (hplace c hc).1]
  exact ⟨place.dropLast, rfl, fun c hc => hplace c (List.dropLast_subset place hc)⟩

theorem IsPlace.join {joined : CStr} (h : IsPlace path) (hcomp : comp = [] ∨ IsEntry comp)
    (hjoin : joinPaths path comp = .ok joined) : IsPlace joined := by
  obtain ⟨place, rfl, hplace⟩ := h
  have hnames : ∀ c ∈ place, IsName c := fun c hc => (hplace c hc).1
  obtain rfl | hentry := hcomp
  · rw [joinPaths_nil] at hjoin
    split at hjoin
    · cases hjoin
    · rw [Except.ok.injEq] at hjoin
      exact ⟨place, hjoin.symm, hplace⟩
  · rw [joinPaths_render hnames hentry.1] at hjoin
    split at hjoin
    · cases hjoin
    · rw [Except.ok.injEq] at hjoin
      exact ⟨place ++ [comp], hjoin.symm, entries_concat hplace hentry⟩

/-- The finality behind a component. -/
def finalityBehind (comp : CStr) (fin : Finality) : Finality :=
  if fin.isFinal = false then fin
  else if comp = str "." then .finalDot
  else if comp = str ".." then .finalSlash
  else fin

/-- Where a round may lead from a place: to another one with the finality of its component, or to
the end of the path. -/
def Round.LeadsOn (comp : CStr) (fin : Finality) : Round → Prop
  | .ended (.error _) => True
  | .ended (.ok (path, fin')) =>
    IsPlace path ∧ fin' = none ∧ fin = .finalNormal ∧ finalityBehind comp fin = .finalNormal
  | .goes path fin' => IsPlace path ∧ fin' = finalityBehind comp fin
  | .follows _ => finalityBehind comp fin = fin

/-- A link is left unresolved only where the path ends. -/
theorem linkContent_stop {hostPath : CStr} (hplace : IsPlace guestPath)
    (hcomp : comp = [] ∨ IsEntry comp)
    (h : linkContent w fin guestPath comp hostPath = .ok (.stop path)) :
    IsPlace path ∧ fin = .finalNormal := by
  have hread : readlinkHost w hostPath ≠ .ok (.stop path) := by
    rw [readlinkHost]
    split
    · split
      · split <;> simp
      · simp
    · split <;> simp
  rw [linkContent] at h
  split at h
  · split at h
    · cases h
    · cases h
    · rename_i hstop
      split at h
      · rename_i hfin
        obtain ⟨place, rfl, hentries⟩ := hplace
        rw [Except.ok.injEq, LinkContent.stop.injEq] at h
        rw [← h]
        exact ⟨readlinkProc_stop hentries hcomp hstop, hfin⟩
      · exact absurd h hread
    · exact absurd h hread
  · exact absurd h hread

/-- **Every round leads from a place to a place.** -/
theorem round_leadsOn (fin : Finality) (hplace : IsPlace guestPath)
    (hcomp : comp = [] ∨ IsName comp) :
    (w.round derefFinal recursionLevel guestPath comp fin).LeadsOn comp fin := by
  have hbehind (hdot : comp ≠ str ".") (hdotDot : comp ≠ str "..") :
      finalityBehind comp fin = fin := by
    rw [finalityBehind, if_neg hdot, if_neg hdotDot, ite_self]
  rw [World.round]
  by_cases hdot : comp = str "."
  · rw [if_pos hdot, Round.LeadsOn, finalityBehind, if_pos hdot]
    refine ⟨hplace, ?_⟩
    cases fin <;> rfl
  by_cases hdotDot : comp = str ".."
  · rw [if_neg hdot, if_pos hdotDot, Round.LeadsOn, finalityBehind, if_neg hdot, if_pos hdotDot]
    refine ⟨hplace.pop, ?_⟩
    cases fin <;> rfl
  rw [if_neg hdot, if_neg hdotDot]
  have hentry : comp = [] ∨ IsEntry comp := hcomp.imp id fun h => ⟨h, hdot, hdotDot⟩
  have hfin := hbehind hdot hdotDot
  cases hjoin : joinPaths guestPath comp with
  | error e => trivial
  | ok scratchPath =>
    have hscratch : IsPlace scratchPath := hplace.join hentry hjoin
    dsimp only
    cases substituteBindingStat w fin scratchPath with
    | error e => trivial
    | ok stat =>
      dsimp only
      generalize (if stat.1 = true then checkLink w.tracee fin recursionLevel scratchPath
        else .keep) = check
      split
      · trivial
      · split
        · exact ⟨hscratch, hfin.symm⟩
        · cases hlink : linkContent w fin guestPath comp stat.2 with
          | error e => trivial
          | ok content =>
            cases content with
            | path path => exact hfin
            | regular => exact ⟨hscratch, hfin.symm⟩
            | stop path =>
              obtain ⟨hpath, hnormal⟩ := linkContent_stop hplace hentry hlink
              exact ⟨hpath, rfl, hnormal, hfin.trans hnormal⟩

/-- A call for a link leads from a place to a place. -/
def KeepsPlace (recursionLevel : ℕ) (call : CStr → CStr → ℕ → Except Errno CStr) : Prop :=
  ∀ path guestPath level result, recursionLevel < level → IsPlace guestPath →
    call path guestPath level = .ok result → IsPlace result

/-- The loop passes a component, or ends with it. -/
theorem loop_passes (hcall : KeepsPlace recursionLevel call) {symlinksFollowed : ℕ}
    {fin' : Option Finality} {rest : List (Except Errno (CStr × Finality))}
    (hplace : IsPlace guestPath) (hcomp : comp = [] ∨ IsName comp)
    (h : canonicalizeLoop w call derefFinal recursionLevel symlinksFollowed guestPath last
      (.ok (comp, fin) :: rest) = .ok (path, fin')) :
    (IsPlace path ∧ fin' = none ∧ fin = .finalNormal ∧ finalityBehind comp fin = .finalNormal) ∨
    ∃ symlinksFollowed guestPath, IsPlace guestPath ∧
      canonicalizeLoop w call derefFinal recursionLevel symlinksFollowed guestPath
        (finalityBehind comp fin) rest = .ok (path, fin') := by
  have hround : (w.round derefFinal recursionLevel guestPath comp fin).LeadsOn comp fin :=
    round_leadsOn fin hplace hcomp
  rw [canonicalizeLoop_cons] at h
  revert h hround
  cases w.round derefFinal recursionLevel guestPath comp fin with
  | ended result =>
    intro h hround
    dsimp only at h
    rw [h] at hround
    exact .inl hround
  | goes guestPath' fin'' =>
    rintro h ⟨hplace', rfl⟩
    exact .inr ⟨_, _, hplace', h⟩
  | follows link =>
    intro h hround
    dsimp only at h
    cases hr : call link guestPath (recursionLevel + (symlinksFollowed + 1)) with
    | error e => rw [hr] at h; cases h
    | ok guestPath' =>
      rw [hr] at h
      dsimp only at h
      cases hstat : substituteBindingStat w fin guestPath' with
      | error e => rw [hstat] at h; cases h
      | ok _ =>
        rw [hstat] at h
        rw [Round.LeadsOn] at hround
        rw [hround]
        exact .inr ⟨_, _, hcall link guestPath _ guestPath' (by omega) hplace hr, h⟩

theorem finalityBehind_last (hlast : last.isFinal = true) (c : CStr) :
    finalityBehind c last = endFinality last [c] := by
  rw [finalityBehind, hlast, if_neg (by simp), endFinality]
  simp

theorem endFinality_cons (last : Finality) (c : CStr) {ns : List CStr} (hns : ns ≠ []) :
    endFinality last (c :: ns) = endFinality last ns := by
  obtain ⟨d, ds, rfl⟩ := List.exists_cons_of_ne_nil hns
  rw [endFinality, endFinality, List.getLast?_cons_cons]

/-- **The loop ends in a place, with the finality of the path**, unless it ends at a descriptor
that ends the path. -/
theorem loop_ends (hcall : KeepsPlace recursionLevel call) (hlast : last.isFinal = true)
    {ns : List CStr} (hns : ∀ c ∈ ns, IsName c) {symlinksFollowed : ℕ} {fin' : Option Finality}
    (hplace : IsPlace guestPath)
    (h : canonicalizeLoop w call derefFinal recursionLevel symlinksFollowed guestPath fin
      (tokensOf last ns) = .ok (path, fin')) :
    IsPlace path ∧ (ns ≠ [] → fin' = some (endFinality last ns) ∨
      (fin' = none ∧ endFinality last ns = .finalNormal)) := by
  induction ns generalizing symlinksFollowed guestPath fin with
  | nil =>
    rw [tokensOf, canonicalizeLoop, Except.ok.injEq, Prod.mk.injEq] at h
    rw [← h.1]
    exact ⟨hplace, fun hne => absurd rfl hne⟩
  | cons c ns ih =>
    rw [tokensOf] at h
    split at h
    · rw [canonicalizeLoop] at h
      cases h
    · by_cases hnil : ns = []
      · subst hnil
        rw [if_pos rfl] at h
        have hbehind := finalityBehind_last hlast c
        obtain ⟨hpath, hnone, -, hnormal⟩ | ⟨s, g, hg, hrest⟩ :=
          loop_passes hcall hplace (.inr (hns c (by simp))) h
        · exact ⟨hpath, fun _ => .inr ⟨hnone, hbehind ▸ hnormal⟩⟩
        · rw [tokensOf, canonicalizeLoop, Except.ok.injEq, Prod.mk.injEq] at hrest
          rw [← hrest.1, ← hrest.2, hbehind]
          exact ⟨hg, fun _ => .inl rfl⟩
      · rw [if_neg hnil] at h
        obtain ⟨-, -, hfin, -⟩ | ⟨s, g, hg, hrest⟩ :=
          loop_passes hcall hplace (.inr (hns c (by simp))) h
        · cases hfin
        · obtain ⟨hpath, hend⟩ := ih (fun d hd => hns d (by simp [hd])) hg hrest
          rw [endFinality_cons last c hnil]
          exact ⟨hpath, fun _ => hend hnil⟩

/-- The loop over a user path. -/
theorem loop_userPath (hcall : KeepsPlace recursionLevel call) {fin : Option Finality}
    (hplace : IsPlace guestPath)
    (h : canonicalizeLoop w call derefFinal recursionLevel 0 guestPath .notFinal
      (nextComponents userPath.length userPath) = .ok (path, fin)) :
    IsPlace path ∧ (fin = some (userFinality userPath) ∨
      (fin = none ∧ userFinality userPath = .finalNormal)) := by
  rw [nextComponents_eq le_rfl] at h
  rw [userFinality]
  by_cases hnil : names userPath = []
  · rw [if_pos hnil] at h
    rw [if_pos hnil]
    obtain ⟨hpath, hnone, -, -⟩ | ⟨s, g, hg, hrest⟩ := loop_passes hcall hplace (.inl rfl) h
    · exact ⟨hpath, .inr ⟨hnone, rfl⟩⟩
    · rw [canonicalizeLoop, Except.ok.injEq, Prod.mk.injEq] at hrest
      rw [← hrest.1, ← hrest.2]
      exact ⟨hg, .inl (by decide)⟩
  · rw [if_neg hnil] at h
    rw [if_neg hnil]
    have hlast : (lastFinality userPath).isFinal = true := by
      rw [lastFinality]
      split <;> rfl
    obtain ⟨hpath, hend⟩ := loop_ends hcall hlast (names_isName userPath) hplace h
    exact ⟨hpath, hend hnil⟩

/-- A call on a level above 0 leads from a place to a place. -/
theorem canonicalizeFrom_place {fuel : ℕ} (hlevel : recursionLevel ≠ 0) (hplace : IsPlace guestPath)
    (h : canonicalizeFrom w fuel userPath derefFinal guestPath recursionLevel = .ok path) :
    IsPlace path := by
  induction fuel generalizing userPath derefFinal guestPath recursionLevel path with
  | zero => cases h
  | succ fuel ih =>
    by_cases hhigh : recursionLevel ≤ w.maxSymlinks
    · rw [canonicalizeFrom_succ hhigh] at h
      split at h
      · cases h
      · split at h
        · cases h
        · have hcall : KeepsPlace recursionLevel fun path => canonicalizeFrom w fuel path true :=
            fun path guestPath level result hdeeper hplace h => ih (by omega) hplace h
          have hstart : IsPlace (if IsAbsolute userPath ∨ ¬ IsAbsolute guestPath then ['/']
              else guestPath) := by
            split
            · exact .root
            · exact hplace
          cases hloop : canonicalizeLoop w (fun path => canonicalizeFrom w fuel path true) derefFinal
              recursionLevel 0 (if IsAbsolute userPath ∨ ¬ IsAbsolute guestPath then ['/']
                else guestPath) .notFinal (nextComponents userPath.length userPath) with
          | error e => rw [hloop] at h; cases h
          | ok ended =>
            obtain ⟨hpath, -⟩ := loop_userPath hcall hstart hloop
            rw [hloop] at h
            obtain ⟨path', fin⟩ := ended
            cases fin with
            | none =>
              rw [finish, Except.ok.injEq] at h
              exact h ▸ hpath
            | some fin =>
              rw [finish, if_neg hlevel, Except.ok.injEq] at h
              exact h ▸ hpath
    · rw [canonicalizeFrom_of_lt (by omega)] at h
      cases h

end Loop

/-- **`canonicalize` leads to a place and puts the finality of the user path behind it.** -/
theorem canonicalize_eq_ok {w : World} {derefFinal : Bool}
    (hplace : IsAbsolute guestPath → IsPlace guestPath)
    (h : canonicalize w userPath derefFinal guestPath = .ok path) :
    ∃ place, destination w userPath derefFinal guestPath = .ok place ∧ IsPlace place ∧
      path = addFinality place (userFinality userPath) := by
  rw [canonicalize, canonicalizeFrom_succ (Nat.zero_le _)] at h
  rw [destination]
  split at h
  · cases h
  · rename_i hshort
    rw [if_neg (fun h => absurd rfl h.2.2)] at h
    rw [if_neg hshort]
    have hcall : KeepsPlace 0 fun path => canonicalizeFrom w w.maxSymlinks path true :=
      fun path guestPath level result hdeeper hplace h =>
        canonicalizeFrom_place (by omega) hplace h
    have hstart : IsPlace (if IsAbsolute userPath ∨ ¬ IsAbsolute guestPath then ['/']
        else guestPath) := by
      split
      · exact .root
      · rename_i habs
        exact hplace (by tauto)
    cases hloop : canonicalizeLoop w (fun path => canonicalizeFrom w w.maxSymlinks path true)
        derefFinal 0 0 (if IsAbsolute userPath ∨ ¬ IsAbsolute guestPath then ['/']
          else guestPath) .notFinal (nextComponents userPath.length userPath) with
    | error e => rw [hloop] at h; cases h
    | ok ended =>
      obtain ⟨hpath, hfin⟩ := loop_userPath hcall hstart hloop
      rw [hloop] at h
      obtain ⟨place, fin⟩ := ended
      refine ⟨place, rfl, hpath, ?_⟩
      obtain rfl | ⟨rfl, hnormal⟩ := hfin
      · rw [finish, if_pos rfl, Except.ok.injEq] at h
        exact h.symm
      · rw [finish, Except.ok.injEq] at h
        rw [hnormal]
        exact h.symm

/-! ### The suffix -/

theorem isName_dot : IsName (str ".") := ⟨by decide, by decide⟩

/-- A path with a name behind it. -/
theorem render_concat (hne : place ≠ []) (c : CStr) :
    render (place ++ [c]) = render place ++ '/' :: c := by
  rw [render_of_ne (by simp), render_of_ne hne, flat_append]
  simp

/-- The last name of a path. -/
theorem last_name_unique {front front' c c' : CStr} (hc : '/' ∉ c) (hc' : '/' ∉ c')
    (h : front ++ '/' :: c = front' ++ '/' :: c') : c = c' := by
  have hback : ∀ front c : CStr, '/' ∉ c →
      ((front ++ '/' :: c).reverse.takeWhile (· ≠ '/')) = c.reverse := by
    intro front c hc
    have hsplit : (front ++ '/' :: c).reverse = c.reverse ++ '/' :: front.reverse := by simp
    rw [hsplit, takeWhile_name (by simpa using hc) (.inl rfl)]
  have hleft := hback front c hc
  rw [h, hback front' c' hc'] at hleft
  exact (List.reverse_injective hleft).symm

/-- Only the root looks like a path with a suffix. -/
theorem hasFinality_place_iff (hplace : ∀ c ∈ place, IsEntry c) :
    HasFinality (render place) ↔ place = [] := by
  constructor
  · intro h
    by_contra hne
    obtain ⟨front, c, rfl⟩ := (List.eq_nil_or_concat place).resolve_left hne
    have hc : IsEntry c := hplace c (by simp)
    have hflat : render (front.concat c) = flat '/' front ++ '/' :: c := by
      rw [render_of_ne hne, List.concat_eq_append, flat_append]
      simp
    obtain h | ⟨t, ht⟩ := h
    · rw [render_of_ne hne] at h
      exact flat_getLast? (fun d hd => (hplace d hd).1) h
    · rw [hflat] at ht
      have hdot : str "." = c := last_name_unique (by decide) hc.1.2 ht
      exact hc.2.1 hdot.symm
  · intro hnil
    rw [hnil]
    exact .inl rfl

/-- A path ends in `/.` when this is put behind it. -/
theorem hasFinality_dot (path : CStr) : HasFinality (path ++ str "/.") :=
  .inr (List.suffix_append path _)

/-- `join_paths` adds nothing for a slash. -/
theorem addFinality_slash (place : List CStr) :
    addFinality (render place) .finalSlash = render place := by
  rw [addFinality, joinPaths_nil]
  split <;> rfl

/-- `join_paths` adds a dot if it fits. -/
theorem addFinality_dot (hplace : ∀ c ∈ place, IsEntry c) :
    addFinality (render place) .finalDot =
      if place = [] then str "/."
      else if pathMax ≤ (render place).length + 3 then render place
      else render place ++ str "/." := by
  have hjoin := joinPaths_render (fun c hc => (hplace c hc).1) isName_dot
  by_cases hnil : place = []
  · subst hnil
    rfl
  · rw [if_neg hnil, addFinality]
    rw [render_concat hnil, List.length_append] at hjoin
    have hdot : joinPaths (render place) ['.'] = joinPaths (render place) (str ".") := rfl
    rw [hdot, hjoin]
    have hlength : ('/' :: str ".").length = 2 := rfl
    by_cases hlong : pathMax ≤ (render place).length + 3
    · rw [if_pos hlong, if_pos (by omega)]
      rfl
    · rw [if_neg hlong, if_neg (by omega)]
      rfl

/-- The result says what the user path asks for: the path leads to the root and asks for a
directory, or it leads elsewhere and asks for none, or for one by a `.` that fits. -/
def FinalityKept (w : World) (userPath : CStr) (derefFinal : Bool) (guestPath : CStr) : Prop :=
  ∀ place, destination w userPath derefFinal guestPath = .ok place →
    if place = ['/'] then AsksDirectory userPath
    else ¬ AsksDirectory userPath ∨
      ((names userPath).getLast? = some (str ".") ∧ place.length + 3 < pathMax)

theorem render_eq_root_iff (hplace : ∀ c ∈ place, IsEntry c) :
    render place = ['/'] ↔ place = [] := by
  rw [← comps_eq_nil_iff (render_canonical fun c hc => (hplace c hc).1),
    comps_render fun c hc => (hplace c hc).1]

/-- The end of the result, for each finality of the user path. -/
theorem hasFinality_addFinality_iff (hplace : ∀ c ∈ place, IsEntry c) (userPath : CStr) :
    (HasFinality (addFinality (render place) (userFinality userPath)) ↔ AsksDirectory userPath) ↔
      if place = [] then AsksDirectory userPath
      else ¬ AsksDirectory userPath ∨
        ((names userPath).getLast? = some (str ".") ∧ (render place).length + 3 < pathMax) := by
  have hroot := hasFinality_place_iff hplace
  rw [userFinality]
  by_cases hempty : names userPath = []
  · -- no component at all
    rw [if_pos hempty, hempty]
    change (HasFinality (render place) ↔ _) ↔ _
    rw [hroot]
    by_cases hnil : place = []
    · simp [hnil]
    · simp [hnil]
  rw [if_neg hempty]
  by_cases hdot : (names userPath).getLast? = some (str ".")
  · have hasks : AsksDirectory userPath := .inr (.inl hdot)
    rw [if_pos hdot, addFinality_dot hplace]
    simp only [hasks, hdot, iff_true, not_true_eq_false, true_and, false_or]
    by_cases hnil : place = []
    · rw [if_pos hnil, if_pos hnil]
      exact iff_of_true (hasFinality_dot []) trivial
    · rw [if_neg hnil, if_neg hnil]
      by_cases hlong : pathMax ≤ (render place).length + 3
      · rw [if_pos hlong, hroot]
        exact iff_of_false hnil (by omega)
      · rw [if_neg hlong]
        exact iff_of_true (hasFinality_dot _) (by omega)
  rw [if_neg hdot]
  by_cases hslash : (names userPath).getLast? = some (str "..") ∨ userPath.getLast? = some '/'
  · have hasks : AsksDirectory userPath := hslash.symm.imp id .inr
    have hfin : (if (names userPath).getLast? = some (str "..") then Finality.finalSlash
        else lastFinality userPath) = .finalSlash := by
      split
      · rfl
      · rw [lastFinality, if_pos (hslash.resolve_left ‹_›)]
    rw [hfin, addFinality_slash, hroot]
    simp [hasks, hdot]
  · rw [not_or] at hslash
    have hasks : ¬ AsksDirectory userPath := by
      rintro (h | h | h)
      · exact hslash.2 h
      · exact hdot h
      · exact hslash.1 h
    rw [if_neg hslash.1, lastFinality, if_neg hslash.2]
    change (HasFinality (render place) ↔ _) ↔ _
    rw [hroot]
    simp [hasks]

/-! ### `chop_finality` -/

theorem chopFinality_append_slash (hne : path ≠ []) : chopFinality (path ++ str "/") = path := by
  have hpos : 0 < path.length := List.length_pos_iff.2 hne
  have hlength : (path ++ str "/").length = path.length + 1 := by
    rw [List.length_append]
    rfl
  have hlast : (path ++ str "/")[path.length]? = some '/' := List.getElem?_concat_length
  rw [chopFinality]
  simp only [hlength, Nat.add_sub_cancel, hlast]
  rw [if_neg (by omega), if_neg (by decide), if_pos trivial, List.take_left]

theorem chopFinality_append_dot (hne : path ≠ []) : chopFinality (path ++ str "/.") = path := by
  have hpos : 0 < path.length := List.length_pos_iff.2 hne
  have hlength : (path ++ str "/.").length = path.length + 2 := by
    rw [List.length_append]
    rfl
  have hlast : (path ++ str "/.")[path.length + 1]? = some '.' := by
    rw [List.getElem?_append_right (by omega), Nat.add_sub_cancel_left]
    rfl
  have hindex : path.length + 2 - 1 = path.length + 1 := rfl
  rw [chopFinality]
  simp only [hlength, Nat.add_sub_cancel, hindex, hlast]
  rw [if_neg (by omega), if_pos trivial, if_neg (by omega), List.take_left]

/-- `chop_finality` cuts a path that ends in a dot, whatever is in front of the dot. -/
theorem chopFinality_eq_self_iff (hlength : 2 ≤ path.length) (hslash : path.getLast? ≠ some '/') :
    chopFinality path = path ↔ path.getLast? ≠ some '.' := by
  rw [List.getLast?_eq_getElem?] at hslash ⊢
  rw [chopFinality, if_neg (by omega)]
  by_cases hdot : path[path.length - 1]? = some '.'
  · rw [if_pos hdot]
    refine iff_of_false (fun h => ?_) (not_not.2 hdot)
    have hshort := congrArg List.length h
    rw [List.length_take] at hshort
    split at hshort <;> omega
  · rw [if_neg hdot, if_neg hslash]
    exact iff_of_true rfl hdot

/-- `chop_finality` takes away the suffixes, and a dot at the end of a name with the letter before
it. -/
theorem chopFinality_iff (hplace : ∀ c ∈ place, IsEntry c) :
    (chopFinality (render place) = render place ∧
      chopFinality (render place ++ str "/") = render place ∧
      chopFinality (render place ++ str "/.") = render place) ↔
    (render place).getLast? ≠ some '.' := by
  have hnames : ∀ c ∈ place, IsName c := fun c hc => (hplace c hc).1
  have hne : render place ≠ [] := by
    intro hnil
    have habs := render_absolute place
    rw [hnil] at habs
    cases habs
  rw [iff_true_intro (chopFinality_append_slash hne), iff_true_intro (chopFinality_append_dot hne),
    true_and, and_true]
  by_cases hnil : place = []
  · subst hnil
    exact iff_of_true rfl (by decide)
  · apply chopFinality_eq_self_iff
    · have hpos : 0 < (render place).length := List.length_pos_iff.2 hne
      have hone := mt (length_render_eq_one_iff hnames).1 hnil
      omega
    · rw [render_of_ne hnil]
      exact flat_getLast? hnames

example : chopFinality (str "/d.") = str "/" := by decide

/-- **Finality is kept** exactly where the path leads to the root and asks for a directory, or
asks for none elsewhere, or for one by a `.`; and `chop_finality` takes away only that from the
paths that do not end in a dot. -/
theorem finality_iff (w : World) (userPath guestPath path guest : CStr) (derefFinal : Bool)
    (hplace : IsAbsolute guestPath → IsPlace guestPath)
    (h : canonicalize w userPath derefFinal guestPath = .ok path) (hguest : IsPlace guest) :
    ((HasFinality path ↔ AsksDirectory userPath) ↔
      FinalityKept w userPath derefFinal guestPath) ∧
    ((chopFinality guest = guest ∧ chopFinality (guest ++ str "/") = guest ∧
      chopFinality (guest ++ str "/.") = guest) ↔ guest.getLast? ≠ some '.') := by
  constructor
  · obtain ⟨_, hdestination, ⟨place, rfl, hplace⟩, rfl⟩ := canonicalize_eq_ok hplace h
    rw [hasFinality_addFinality_iff hplace, FinalityKept, hdestination]
    simp only [Except.ok.injEq, forall_eq', render_eq_root_iff hplace]
  · obtain ⟨place, rfl, hplace⟩ := hguest
    exact chopFinality_iff hplace

/-- A path that ends in a dot, below a directory. -/
theorem finality_of_dot :
    ((HasFinality (str "/d/.") ↔ AsksDirectory (str "d/.")) ↔
      FinalityKept linkWorld (str "d/.") true (str "/")) ∧
    ((chopFinality (str "/d.") = str "/d." ∧ chopFinality (str "/d." ++ str "/") = str "/d." ∧
      chopFinality (str "/d." ++ str "/.") = str "/d.") ↔ (str "/d.").getLast? ≠ some '.') := by
  have hname : IsPlace (str "/d.") := by
    refine ⟨[str "d."], rfl, ?_⟩
    intro c hc
    rw [List.mem_singleton.1 hc]
    exact ⟨⟨by decide, by decide⟩, by decide, by decide⟩
  exact finality_iff linkWorld (str "d/.") (str "/") (str "/d/.") (str "/d.") true (fun _ => .root)
    (by decide) hname

/-- The slash behind a directory is lost. -/
theorem slash_lost :
    ¬ ((∀ (w : World) (userPath guestPath path : CStr) (derefFinal : Bool),
        (IsAbsolute guestPath → IsPlace guestPath) →
        canonicalize w userPath derefFinal guestPath = .ok path →
        (HasFinality path ↔ AsksDirectory userPath)) ∧
      ∀ path, IsPlace path → chopFinality path = path ∧ chopFinality (path ++ str "/") = path ∧
        chopFinality (path ++ str "/.") = path) := by
  intro h
  have hsays : HasFinality (str "/d") ↔ AsksDirectory (str "d/") :=
    h.1 linkWorld (str "d/") (str "/") (str "/d") true (fun _ => .root) (by decide)
  revert hsays
  decide

end NeoProot
