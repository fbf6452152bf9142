import NeoProot.Path.Rounds
import Mathlib.Algebra.Ring.Nat

/-!
# The symbolic links of one resolution

`canonicalize` bounds the level of a call: the links followed before at this level and around it.
The links that a nested call has followed are not returned to its caller, so the bound on the
level is a bound on all links of a resolution only as long as no link inside the content of
another is left behind.

A resolution is run here with a tally of its links, under either of two rules: a link is admitted
by its level, as the code does it, or by the number of all links before it.
`symlinkBudget_iff` says when both agree.

## Main definitions

* `Tally` — the links followed so far.
* `tallyFrom` — the calls of `canonicalize` with the tally.
* `KeepsBudget` — no more than `MAXSYMLINKS` links are followed.
-/

namespace NeoProot

variable {least : ℕ}

/-- How many links a resolution has followed, and the level of the one that was refused. -/
structure Tally where
  followed : ℕ
  refused : Option ℕ
  deriving DecidableEq, Repr

variable {t : Tally}

/-- A call for a link: the content, the guest path, the level. -/
abbrev LinkCall := CStr → CStr → ℕ → Tally → Except Errno CStr × Tally

variable {recurse : LinkCall}

/-- The loop of `canonicalize` with the tally. -/
def tallyLoop (w : World) (recurse : LinkCall) (derefFinal : Bool) (recursionLevel : ℕ) :
    ℕ → CStr → Finality → List (Except Errno (CStr × Finality)) → Tally →
      Except Errno (CStr × Option Finality) × Tally
  | _, guestPath, fin, [], t => (.ok (guestPath, some fin), t)
  | _, _, _, .error e :: _, t => (.error e, t)
  | symlinksFollowed, guestPath, _, .ok (comp, fin) :: rest, t =>
    match w.round derefFinal recursionLevel guestPath comp fin with
    | .ended result => (result, t)
    | .goes guestPath fin =>
      tallyLoop w recurse derefFinal recursionLevel symlinksFollowed guestPath fin rest t
    | .follows path =>
      match recurse path guestPath (recursionLevel + (symlinksFollowed + 1)) t with
      | (.error e, t) => (.error e, t)
      | (.ok guestPath, t) =>
        match substituteBindingStat w fin guestPath with
        | .error e => (.error e, t)
        | .ok _ =>
          tallyLoop w recurse derefFinal recursionLevel (symlinksFollowed + 1) guestPath fin rest
            t

/-- A link is followed and tallied, or refused. -/
def callLink (admits : ℕ → Tally → Bool) (call : LinkCall) : LinkCall :=
  fun path guestPath level t =>
    if admits level t then call path guestPath level { t with followed := t.followed + 1 }
    else (.error .eloop, { t with refused := some level })

/-- The calls of `canonicalize` with the tally. -/
def tallyFrom (w : World) (admits : ℕ → Tally → Bool) :
    ℕ → CStr → Bool → CStr → ℕ → Tally → Except Errno CStr × Tally
  | 0, _, _, _, _, t => (.error .eloop, t)
  | fuel + 1, userPath, derefFinal, guestPath, recursionLevel, t =>
    if pathMax ≤ userPath.length then (.error .enametoolong, t)
    else if ¬ IsAbsolute userPath ∧ ¬ IsAbsolute guestPath ∧ recursionLevel ≠ 0 then
      (.error .einval, t)
    else
      let guestPath :=
        if IsAbsolute userPath ∨ ¬ IsAbsolute guestPath then ['/'] else guestPath
      (tallyLoop w (callLink admits fun path => tallyFrom w admits fuel path true) derefFinal
        recursionLevel 0 guestPath .notFinal (nextComponents userPath.length userPath) t).map
          (finish recursionLevel) id

/-- The rule of the code: a link is admitted by its level. -/
def byLevel (w : World) (level : ℕ) (_ : Tally) : Bool := level ≤ w.maxSymlinks

/-- The rule of one count: a link is admitted by the number of links before it. -/
def byCount (w : World) (_ : ℕ) (t : Tally) : Bool := t.followed < w.maxSymlinks

@[simp] theorem byLevel_eq_true {w : World} {level : ℕ} :
    byLevel w level t = true ↔ level ≤ w.maxSymlinks := decide_eq_true_iff

@[simp] theorem byCount_eq_true {w : World} {level : ℕ} :
    byCount w level t = true ↔ t.followed < w.maxSymlinks := decide_eq_true_iff

/-- The resolution of a user path with its tally. -/
def tally (w : World) (admits : ℕ → Tally → Bool) (userPath : CStr) (derefFinal : Bool)
    (guestPath : CStr) : Except Errno CStr × Tally :=
  tallyFrom w admits (w.maxSymlinks + 1) userPath derefFinal guestPath 0 ⟨0, none⟩

/-- `canonicalize` follows no more links than it may, and says so when there are more. -/
structure KeepsBudget (w : World) (userPath : CStr) (derefFinal : Bool) (guestPath : CStr) :
    Prop where
  followed_le : (tally w (byLevel w) userPath derefFinal guestPath).2.followed ≤ w.maxSymlinks
  eloop : (tally w (byCount w) userPath derefFinal guestPath).2.refused ≠ none →
    canonicalize w userPath derefFinal guestPath = .error .eloop

/-- Every link before the first one that is too many still counts for the level of that one: none
was met inside the content of a link that is resolved by then. -/
def NoneForgotten (w : World) (userPath : CStr) (derefFinal : Bool) (guestPath : CStr) : Prop :=
  ∀ level, (tally w (byCount w) userPath derefFinal guestPath).2.refused = some level →
    level = w.maxSymlinks + 1

section Rounds

variable {w : World} {derefFinal : Bool} {recursionLevel : ℕ}

/-! ### The tally of the code -/

/-- A call for a link does what a call without the tally does. -/
def Erases (recurse : LinkCall) (call : CStr → CStr → ℕ → Except Errno CStr) : Prop :=
  ∀ path guestPath level t, (recurse path guestPath level t).1 = call path guestPath level

theorem tallyLoop_erases {call : CStr → CStr → ℕ → Except Errno CStr} (h : Erases recurse call)
    (symlinksFollowed : ℕ) (guestPath : CStr) (fin : Finality)
    (comps : List (Except Errno (CStr × Finality))) (t : Tally) :
    (tallyLoop w recurse derefFinal recursionLevel symlinksFollowed guestPath fin comps t).1 =
      canonicalizeLoop w call derefFinal recursionLevel symlinksFollowed guestPath fin comps := by
  induction comps generalizing symlinksFollowed guestPath fin t with
  | nil => rfl
  | cons comp comps ih =>
    cases comp with
    | error e => rfl
    | ok comp =>
      rw [canonicalizeLoop_cons, tallyLoop]
      cases w.round derefFinal recursionLevel guestPath comp.1 comp.2 with
      | ended result => rfl
      | goes guestPath fin => exact ih symlinksFollowed guestPath fin t
      | follows path =>
        dsimp only
        rw [← h path guestPath (recursionLevel + (symlinksFollowed + 1)) t]
        cases recurse path guestPath (recursionLevel + (symlinksFollowed + 1)) t with
        | mk result t =>
          cases result with
          | error e => rfl
          | ok guestPath =>
            dsimp only
            cases substituteBindingStat w comp.2 guestPath with
            | error e => rfl
            | ok _ => exact ih (symlinksFollowed + 1) guestPath comp.2 t

/-- **The tally by levels is that of `canonicalize`.** -/
theorem tallyFrom_byLevel (fuel : ℕ) (userPath guestPath : CStr)
    (hlevel : recursionLevel ≤ w.maxSymlinks) (t : Tally) :
    (tallyFrom w (byLevel w) fuel userPath derefFinal guestPath recursionLevel t).1 =
      canonicalizeFrom w fuel userPath derefFinal guestPath recursionLevel := by
  induction fuel generalizing userPath derefFinal guestPath recursionLevel t with
  | zero => rfl
  | succ fuel ih =>
    have herases : Erases (callLink (byLevel w) fun path => tallyFrom w (byLevel w) fuel path true)
        fun path => canonicalizeFrom w fuel path true := by
      intro path guestPath level t
      by_cases hlevel : level ≤ w.maxSymlinks
      · rw [callLink, if_pos (byLevel_eq_true.2 hlevel)]
        exact ih path guestPath hlevel _
      · rw [callLink, if_neg (fun h => hlevel (byLevel_eq_true.1 h))]
        exact (canonicalizeFrom_of_lt (not_le.1 hlevel) path guestPath).symm
    rw [canonicalizeFrom_succ hlevel, tallyFrom]
    by_cases hlong : pathMax ≤ userPath.length
    · rw [if_pos hlong, if_pos hlong]
    rw [if_neg hlong, if_neg hlong]
    by_cases hrelative : ¬ IsAbsolute userPath ∧ ¬ IsAbsolute guestPath ∧ recursionLevel ≠ 0
    · rw [if_pos hrelative, if_pos hrelative]
    rw [if_neg hrelative, if_neg hrelative]
    dsimp only [Prod.map]
    rw [tallyLoop_erases herases]

theorem tally_byLevel (w : World) (userPath : CStr) (derefFinal : Bool) (guestPath : CStr) :
    (tally w (byLevel w) userPath derefFinal guestPath).1 =
      canonicalize w userPath derefFinal guestPath :=
  tallyFrom_byLevel _ userPath guestPath (Nat.zero_le _) _

/-! ### Links are only added -/

/-- A call for a link takes nothing off the tally. -/
def Grows (recurse : LinkCall) : Prop :=
  ∀ path guestPath level t, t.followed ≤ (recurse path guestPath level t).2.followed

theorem tallyLoop_grows (h : Grows recurse) (symlinksFollowed : ℕ) (guestPath : CStr)
    (fin : Finality) (comps : List (Except Errno (CStr × Finality))) (t : Tally) :
    t.followed ≤ (tallyLoop w recurse derefFinal recursionLevel symlinksFollowed guestPath fin
      comps t).2.followed := by
  induction comps generalizing symlinksFollowed guestPath fin t with
  | nil => exact le_rfl
  | cons comp comps ih =>
    cases comp with
    | error e => exact le_rfl
    | ok comp =>
      rw [tallyLoop]
      cases w.round derefFinal recursionLevel guestPath comp.1 comp.2 with
      | ended result => exact le_rfl
      | goes guestPath fin => exact ih symlinksFollowed guestPath fin t
      | follows path =>
        dsimp only
        have hcall := h path guestPath (recursionLevel + (symlinksFollowed + 1)) t
        cases hr : recurse path guestPath (recursionLevel + (symlinksFollowed + 1)) t with
        | mk result t' =>
          rw [hr] at hcall
          cases result with
          | error e => exact hcall
          | ok guestPath =>
            dsimp only
            cases substituteBindingStat w comp.2 guestPath with
            | error e => exact hcall
            | ok _ => exact hcall.trans (ih (symlinksFollowed + 1) guestPath comp.2 t')

theorem callLink_grows {admits : ℕ → Tally → Bool} {call : LinkCall} (h : Grows call) :
    Grows (callLink admits call) := by
  intro path guestPath level t
  rw [callLink]
  split
  · exact (Nat.le_succ _).trans (h path guestPath level { t with followed := t.followed + 1 })
  · exact le_rfl

theorem tallyFrom_grows (w : World) (admits : ℕ → Tally → Bool) (fuel : ℕ) (userPath : CStr)
    (derefFinal : Bool) (guestPath : CStr) (recursionLevel : ℕ) (t : Tally) :
    t.followed ≤ (tallyFrom w admits fuel userPath derefFinal guestPath recursionLevel
      t).2.followed := by
  induction fuel generalizing userPath derefFinal guestPath recursionLevel t with
  | zero => exact le_rfl
  | succ fuel ih =>
    rw [tallyFrom]
    split
    · exact le_rfl
    · split
      · exact le_rfl
      · apply tallyLoop_grows
        apply callLink_grows
        intro path guestPath level t
        exact ih path true guestPath level t

/-! ### Both rules side by side -/

/-- What the code makes of a call and what one count makes of it: the same, or both refuse a link
for which all before it count, or only the count refuses it. -/
inductive SideBySide {α : Type} (w : World) (least : ℕ) :
    Except Errno α × Tally → Except Errno α × Tally → Prop
  | same {result : Except Errno α} {t : Tally} (hnone : t.refused = none)
      (hleast : least ≤ t.followed) (hmax : t.followed ≤ w.maxSymlinks) :
      SideBySide w least (result, t) (result, t)
  | refused {t : Tally} (hrefused : t.refused = some (w.maxSymlinks + 1))
      (hmax : t.followed = w.maxSymlinks) : SideBySide w least (.error .eloop, t) (.error .eloop, t)
  | overrun {code : Except Errno α × Tally} {t : Tally} {level : ℕ}
      (hrefused : t.refused = some level) (hlevel : level ≤ w.maxSymlinks)
      (hmax : w.maxSymlinks < code.2.followed) : SideBySide w least code (.error .eloop, t)

theorem SideBySide.mono {α : Type} {least' : ℕ} {x y : Except Errno α × Tally}
    (h : SideBySide w least x y) (hle : least' ≤ least) : SideBySide w least' x y := by
  cases h with
  | same hnone hleast hmax => exact .same hnone (hle.trans hleast) hmax
  | refused hrefused hmax => exact .refused hrefused hmax
  | overrun hrefused hlevel hmax => exact .overrun hrefused hlevel hmax

/-- The code keeps to the budget exactly when nothing is forgotten. -/
theorem SideBySide.keeps_iff {α : Type} {x y : Except Errno α × Tally}
    (h : SideBySide w least x y) :
    (x.2.followed ≤ w.maxSymlinks ∧ (y.2.refused ≠ none → x.1 = .error .eloop)) ↔
      ∀ level, y.2.refused = some level → level = w.maxSymlinks + 1 := by
  cases h with
  | same hnone _ hmax => simp [hnone, hmax]
  | refused hrefused hmax => simp [hrefused, hmax]
  | @overrun _ t level hrefused hlevel hmax =>
    constructor
    · rintro ⟨hle, -⟩
      omega
    · intro h
      have hlast := h level hrefused
      omega

theorem SideBySide.finish {x y : Except Errno (CStr × Option Finality) × Tally}
    (h : SideBySide w least x y) (recursionLevel : ℕ) :
    SideBySide w least (x.map (NeoProot.finish recursionLevel) id)
      (y.map (NeoProot.finish recursionLevel) id) := by
  cases h with
  | same hnone hleast hmax => exact .same hnone hleast hmax
  | refused hrefused hmax => exact .refused hrefused hmax
  | overrun hrefused hlevel hmax => exact .overrun hrefused hlevel hmax

/-- Calls for links that go side by side, from tallies that count at least the level. -/
def CallsSideBySide (w : World) (recursionLevel : ℕ) (code count : LinkCall) : Prop :=
  ∀ path guestPath level t, recursionLevel < level → level ≤ t.followed + 1 → t.refused = none →
    t.followed ≤ w.maxSymlinks →
      SideBySide w (t.followed + 1) (code path guestPath level t) (count path guestPath level t)

theorem tallyLoop_sideBySide {code count : LinkCall} (hgrows : Grows code)
    (hcalls : CallsSideBySide w recursionLevel code count) (derefFinal : Bool)
    (symlinksFollowed : ℕ) (guestPath : CStr) (fin : Finality)
    (comps : List (Except Errno (CStr × Finality)))
    (hlevel : recursionLevel + symlinksFollowed ≤ t.followed) (hnone : t.refused = none)
    (hmax : t.followed ≤ w.maxSymlinks) :
    SideBySide w t.followed
      (tallyLoop w code derefFinal recursionLevel symlinksFollowed guestPath fin comps t)
      (tallyLoop w count derefFinal recursionLevel symlinksFollowed guestPath fin comps t) := by
  induction comps generalizing symlinksFollowed guestPath fin t with
  | nil => exact .same hnone le_rfl hmax
  | cons comp comps ih =>
    cases comp with
    | error e => exact .same hnone le_rfl hmax
    | ok comp =>
      rw [tallyLoop, tallyLoop]
      cases w.round derefFinal recursionLevel guestPath comp.1 comp.2 with
      | ended result => exact .same hnone le_rfl hmax
      | goes guestPath fin => exact ih symlinksFollowed guestPath fin hlevel hnone hmax
      | follows path =>
        have hboth := hcalls path guestPath (recursionLevel + (symlinksFollowed + 1)) t (by omega)
          (by omega) hnone hmax
        dsimp only
        generalize code path guestPath (recursionLevel + (symlinksFollowed + 1)) t = x at hboth ⊢
        generalize count path guestPath (recursionLevel + (symlinksFollowed + 1)) t = y at hboth ⊢
        cases hboth with
        | @same result t' hnone' hleast' hmax' =>
          cases result with
          | error e => exact .same hnone' (by omega) hmax'
          | ok guestPath =>
            dsimp only
            cases substituteBindingStat w comp.2 guestPath with
            | error e => exact .same hnone' (by omega) hmax'
            | ok _ =>
              have hrest := ih (symlinksFollowed + 1) guestPath comp.2 (by omega) hnone' hmax'
              exact hrest.mono (by omega)
        | refused hrefused' hmax' => exact .refused hrefused' hmax'
        | overrun hrefused' hlevel' hmax' =>
          -- the code goes on, and its tally only grows
          refine .overrun hrefused' hlevel' ?_
          obtain ⟨result, t'⟩ := x
          cases result with
          | error e => exact hmax'
          | ok guestPath =>
            dsimp only
            cases substituteBindingStat w comp.2 guestPath with
            | error e => exact hmax'
            | ok _ => exact hmax'.trans_le (tallyLoop_grows hgrows _ guestPath comp.2 comps t')

theorem tallyFrom_sideBySide (fuel : ℕ) (userPath guestPath : CStr)
    (hfuel : w.maxSymlinks < fuel + recursionLevel) (hlevel : recursionLevel ≤ t.followed)
    (hnone : t.refused = none) (hmax : t.followed ≤ w.maxSymlinks) :
    SideBySide w t.followed
      (tallyFrom w (byLevel w) fuel userPath derefFinal guestPath recursionLevel t)
      (tallyFrom w (byCount w) fuel userPath derefFinal guestPath recursionLevel t) := by
  induction fuel generalizing userPath derefFinal guestPath recursionLevel t with
  | zero => omega
  | succ fuel ih =>
    have hcalls : CallsSideBySide w recursionLevel
        (callLink (byLevel w) fun path => tallyFrom w (byLevel w) fuel path true)
        (callLink (byCount w) fun path => tallyFrom w (byCount w) fuel path true) := by
      intro path guestPath level t hdeeper hlevel hnone hmax
      rw [callLink, callLink]
      by_cases hcount : t.followed < w.maxSymlinks
      · rw [if_pos (byLevel_eq_true.2 (by omega)), if_pos (byCount_eq_true.2 hcount)]
        exact ih (t := { t with followed := t.followed + 1 }) path guestPath (by omega) hlevel
          hnone hcount
      · rw [if_neg (fun h => hcount (byCount_eq_true.1 h))]
        by_cases hadmitted : level ≤ w.maxSymlinks
        · -- one link too many, and the level does not tell
          rw [if_pos (byLevel_eq_true.2 hadmitted)]
          have hgrows := tallyFrom_grows w (byLevel w) fuel path true guestPath level
            { t with followed := t.followed + 1 }
          exact .overrun rfl hadmitted (by dsimp only at hgrows; omega)
        · rw [if_neg (fun h => hadmitted (byLevel_eq_true.1 h))]
          have hlast : level = w.maxSymlinks + 1 := by omega
          exact .refused (by rw [hlast]) (by dsimp only; omega)
    rw [tallyFrom, tallyFrom]
    by_cases hlong : pathMax ≤ userPath.length
    · rw [if_pos hlong, if_pos hlong]
      exact .same hnone le_rfl hmax
    rw [if_neg hlong, if_neg hlong]
    by_cases hrelative : ¬ IsAbsolute userPath ∧ ¬ IsAbsolute guestPath ∧ recursionLevel ≠ 0
    · rw [if_pos hrelative, if_pos hrelative]
      exact .same hnone le_rfl hmax
    rw [if_neg hrelative, if_neg hrelative]
    have hgrows : Grows (callLink (byLevel w) fun path => tallyFrom w (byLevel w) fuel path true) :=
      callLink_grows fun path guestPath level t =>
        tallyFrom_grows w (byLevel w) fuel path true guestPath level t
    exact (tallyLoop_sideBySide hgrows hcalls derefFinal 0 _ .notFinal _ hlevel hnone hmax).finish
      recursionLevel

/-! ### Enough fuel -/

theorem canonicalizeLoop_congr {call call' : CStr → CStr → ℕ → Except Errno CStr}
    (h : ∀ path guestPath level, recursionLevel < level →
      call path guestPath level = call' path guestPath level) (symlinksFollowed : ℕ)
    (guestPath : CStr) (fin : Finality) (comps : List (Except Errno (CStr × Finality))) :
    canonicalizeLoop w call derefFinal recursionLevel symlinksFollowed guestPath fin comps =
      canonicalizeLoop w call' derefFinal recursionLevel symlinksFollowed guestPath fin comps := by
  induction comps generalizing symlinksFollowed guestPath fin with
  | nil => rfl
  | cons comp comps ih =>
    cases comp with
    | error e => rfl
    | ok comp =>
      rw [canonicalizeLoop_cons, canonicalizeLoop_cons]
      simp only [ih, h _ _ (recursionLevel + (symlinksFollowed + 1)) (by omega)]

/-- The levels end the recursion: more fuel than there are levels left changes nothing. -/
theorem canonicalizeFrom_fuel {fuel fuel' : ℕ} (userPath : CStr) (derefFinal : Bool)
    (guestPath : CStr) (recursionLevel : ℕ) (h : w.maxSymlinks < fuel + recursionLevel)
    (h' : w.maxSymlinks < fuel' + recursionLevel) :
    canonicalizeFrom w fuel userPath derefFinal guestPath recursionLevel =
      canonicalizeFrom w fuel' userPath derefFinal guestPath recursionLevel := by
  induction fuel generalizing fuel' userPath derefFinal guestPath recursionLevel with
  | zero => rw [canonicalizeFrom_of_lt (by omega), canonicalizeFrom_of_lt (by omega)]
  | succ fuel ih =>
    by_cases hlevel : recursionLevel ≤ w.maxSymlinks
    · cases fuel' with
      | zero => omega
      | succ fuel' =>
        have hcalls : ∀ path guestPath level, recursionLevel < level →
            canonicalizeFrom w fuel path true guestPath level =
              canonicalizeFrom w fuel' path true guestPath level :=
          fun path guestPath level hdeeper => ih path true guestPath level (by omega) (by omega)
        rw [canonicalizeFrom_succ hlevel, canonicalizeFrom_succ hlevel,
          canonicalizeLoop_congr hcalls]
    · rw [canonicalizeFrom_of_lt (by omega), canonicalizeFrom_of_lt (by omega)]

/-! ### The number of links -/

/-- A call on a level follows fewer links than a binary tree over the levels left has nodes. -/
def Bounded (w : World) (recurse : LinkCall) : Prop :=
  ∀ path guestPath level t, (recurse path guestPath level t).2.followed ≤
    t.followed + if level ≤ w.maxSymlinks then 2 ^ (w.maxSymlinks - level) else 0

theorem tallyLoop_bounded (h : Bounded w recurse) (symlinksFollowed : ℕ) (guestPath : CStr)
    (fin : Finality) (comps : List (Except Errno (CStr × Finality))) (t : Tally) :
    (tallyLoop w recurse derefFinal recursionLevel symlinksFollowed guestPath fin
      comps t).2.followed + 1 ≤
      t.followed + 2 ^ (w.maxSymlinks - (recursionLevel + symlinksFollowed)) := by
  have hpos (n : ℕ) : 1 ≤ 2 ^ n := Nat.one_le_two_pow
  induction comps generalizing symlinksFollowed guestPath fin t with
  | nil => exact Nat.add_le_add_left (hpos _) _
  | cons comp comps ih =>
    cases comp with
    | error e => exact Nat.add_le_add_left (hpos _) _
    | ok comp =>
      rw [tallyLoop]
      cases w.round derefFinal recursionLevel guestPath comp.1 comp.2 with
      | ended result => exact Nat.add_le_add_left (hpos _) _
      | goes guestPath fin => exact ih symlinksFollowed guestPath fin t
      | follows path =>
        dsimp only
        have hcall := h path guestPath (recursionLevel + (symlinksFollowed + 1)) t
        -- half of the tree is below this link, the other half is left for the next ones
        have hhalf : (if recursionLevel + (symlinksFollowed + 1) ≤ w.maxSymlinks then
              2 ^ (w.maxSymlinks - (recursionLevel + (symlinksFollowed + 1))) else 0) +
            2 ^ (w.maxSymlinks - (recursionLevel + (symlinksFollowed + 1))) ≤
              2 ^ (w.maxSymlinks - (recursionLevel + symlinksFollowed)) := by
          split
          · have hstep : w.maxSymlinks - (recursionLevel + symlinksFollowed) =
                w.maxSymlinks - (recursionLevel + (symlinksFollowed + 1)) + 1 := by omega
            rw [hstep, Nat.pow_succ]
            omega
          · have hstep : w.maxSymlinks - (recursionLevel + (symlinksFollowed + 1)) =
                w.maxSymlinks - (recursionLevel + symlinksFollowed) := by omega
            rw [hstep, Nat.zero_add]
        have hone := hpos (w.maxSymlinks - (recursionLevel + (symlinksFollowed + 1)))
        cases hr : recurse path guestPath (recursionLevel + (symlinksFollowed + 1)) t with
        | mk result t' =>
          rw [hr] at hcall
          dsimp only at hcall
          cases result with
          | error e => dsimp only; omega
          | ok guestPath =>
            dsimp only
            cases substituteBindingStat w comp.2 guestPath with
            | error e => dsimp only; omega
            | ok _ =>
              have hrest := ih (symlinksFollowed + 1) guestPath comp.2 t'
              dsimp only
              omega

theorem tallyFrom_bounded (w : World) (fuel : ℕ) (userPath : CStr) (derefFinal : Bool)
    (guestPath : CStr) (recursionLevel : ℕ) (t : Tally) :
    (tallyFrom w (byLevel w) fuel userPath derefFinal guestPath recursionLevel t).2.followed + 1 ≤
      t.followed + 2 ^ (w.maxSymlinks - recursionLevel) := by
  have hpos (n : ℕ) : 1 ≤ 2 ^ n := Nat.one_le_two_pow
  induction fuel generalizing userPath derefFinal guestPath recursionLevel t with
  | zero => exact Nat.add_le_add_left (hpos _) _
  | succ fuel ih =>
    rw [tallyFrom]
    split
    · exact Nat.add_le_add_left (hpos _) _
    · split
      · exact Nat.add_le_add_left (hpos _) _
      · have hbounded : Bounded w
            (callLink (byLevel w) fun path => tallyFrom w (byLevel w) fuel path true) := by
          intro path guestPath level t
          rw [callLink]
          by_cases hlevel : level ≤ w.maxSymlinks
          · have hnext := ih path true guestPath level { t with followed := t.followed + 1 }
            rw [if_pos (byLevel_eq_true.2 hlevel), if_pos hlevel]
            dsimp only at hnext
            omega
          · rw [if_neg (fun h => hlevel (byLevel_eq_true.1 h)), if_neg hlevel]
            exact le_rfl
        exact tallyLoop_bounded hbounded 0 _ .notFinal _ t

end Rounds

/-- **A resolution follows fewer than 2 ^ `MAXSYMLINKS` links.** -/
theorem followed_lt_two_pow (w : World) (userPath : CStr) (derefFinal : Bool) (guestPath : CStr) :
    (tally w (byLevel w) userPath derefFinal guestPath).1 =
        canonicalize w userPath derefFinal guestPath ∧
      (tally w (byLevel w) userPath derefFinal guestPath).2.followed < 2 ^ w.maxSymlinks := by
  have hbound := tallyFrom_bounded w (w.maxSymlinks + 1) userPath derefFinal guestPath 0 ⟨0, none⟩
  rw [Nat.zero_add, Nat.sub_zero] at hbound
  exact ⟨tally_byLevel w userPath derefFinal guestPath, hbound⟩

/-- **`canonicalize` ends, and keeps to its budget** exactly when no link is forgotten before the
first one that is too many. -/
theorem symlinkBudget_iff (w : World) (userPath : CStr) (derefFinal : Bool) (guestPath : CStr) :
    (∀ fuel, w.maxSymlinks < fuel → canonicalizeFrom w fuel userPath derefFinal guestPath 0 =
      canonicalize w userPath derefFinal guestPath) ∧
    (tally w (byLevel w) userPath derefFinal guestPath).1 =
      canonicalize w userPath derefFinal guestPath ∧
    (KeepsBudget w userPath derefFinal guestPath ↔
      NoneForgotten w userPath derefFinal guestPath) := by
  have hcode := tally_byLevel w userPath derefFinal guestPath
  have hboth : SideBySide w 0 (tally w (byLevel w) userPath derefFinal guestPath)
      (tally w (byCount w) userPath derefFinal guestPath) :=
    tallyFrom_sideBySide (t := ⟨0, none⟩) _ userPath guestPath (Nat.lt_succ_self _)
      (Nat.le_refl 0) rfl (Nat.zero_le _)
  refine ⟨fun fuel hfuel => canonicalizeFrom_fuel _ _ _ 0 hfuel (Nat.lt_succ_self _), hcode, ?_⟩
  rw [NoneForgotten, ← hboth.keeps_iff, hcode]
  constructor
  · intro h
    exact ⟨h.followed_le, h.eloop⟩
  · rintro ⟨hfollowed, heloop⟩
    exact ⟨hfollowed, heloop⟩

/-- A tracee that sees the host root, with a link `/y` to the root and a link `/x` to that link;
20 links are allowed. -/
def twoLinkWorld : World where
  tracee := traceeAfter [.insortBinding3 (str "/") (str "/")]
  getTracee := fun _ => none
  maxSymlinks := 20
  lstat := fun path =>
    if path = str "/x" ∨ path = str "/y" then .ok .symlink
    else if path = str "/" then .ok .directory
    else .error .enoent
  readlink := fun path => .ok (if path = str "/x" then str "y" else str ".")
  notifyHostPath := id
  shouldSkipFileAccessDueToF2fsBug := fun _ => false
  unset := fun _ => .other

/-- Eleven times the link `/x`: 22 links are followed. -/
theorem nested_links_forgotten :
    ¬ ∀ (w : World) (userPath : CStr) (derefFinal : Bool) (guestPath : CStr),
      KeepsBudget w userPath derefFinal guestPath := by
  intro h
  have hfollowed :=
    (h twoLinkWorld (str "x/x/x/x/x/x/x/x/x/x/x") true (str "/")).followed_le
  revert hfollowed
  decide +kernel

end NeoProot
