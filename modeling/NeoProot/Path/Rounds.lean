import NeoProot.Path.Canon

/-!
# The rounds of canonicalization

One round of the loop of `canonicalize` looks at one component: it ends the loop, goes on with
another guest path, or follows a link.  What a round does depends on the surroundings and on the
component, not on the call that it may make for a link.  `canonicalizeLoop_cons` is the loop in
these terms.

## Main definitions

* `Round`, `World.round` — what one round does.
* `finish` — what a call makes of its loop.
-/

namespace NeoProot

/-- What one round of the loop does. -/
inductive Round
  | ended (result : Except Errno (CStr × Option Finality))
  | goes (guestPath : CStr) (fin : Finality)
  | follows (path : CStr)

/-- The round for one component. -/
def World.round (w : World) (derefFinal : Bool) (recursionLevel : ℕ) (guestPath comp : CStr)
    (fin : Finality) : Round :=
  if comp = str "." then .goes guestPath (if fin.isFinal then .finalDot else fin)
  else if comp = str ".." then
    .goes (popComponent guestPath) (if fin.isFinal then .finalSlash else fin)
  else
    match joinPaths guestPath comp with
    | .error e => .ended (.error e)
    | .ok scratchPath =>
      match substituteBindingStat w fin scratchPath with
      | .error e => .ended (.error e)
      | .ok (isLink, hostPath) =>
        let check := if isLink then checkLink w.tracee fin recursionLevel scratchPath else .keep
        if check = .eloop then .ended (.error .eloop)
        else if check = .keep ∨ (fin = .finalNormal ∧ ¬ derefFinal) then .goes scratchPath fin
        else
          match linkContent w fin guestPath comp hostPath with
          | .error e => .ended (.error e)
          | .ok .regular => .goes scratchPath fin
          | .ok (.stop path) => .ended (.ok (path, none))
          | .ok (.path path) => .follows path

/-- **The loop takes one round after the other.** -/
theorem canonicalizeLoop_cons (w : World) (recurse : CStr → CStr → ℕ → Except Errno CStr)
    (derefFinal : Bool) (recursionLevel symlinksFollowed : ℕ) (guestPath comp : CStr)
    (last fin : Finality) (rest : List (Except Errno (CStr × Finality))) :
    canonicalizeLoop w recurse derefFinal recursionLevel symlinksFollowed guestPath last
        (.ok (comp, fin) :: rest) =
      match w.round derefFinal recursionLevel guestPath comp fin with
      | .ended result => result
      | .goes guestPath fin =>
        canonicalizeLoop w recurse derefFinal recursionLevel symlinksFollowed guestPath fin rest
      | .follows path =>
        match recurse path guestPath (recursionLevel + (symlinksFollowed + 1)) with
        | .error e => .error e
        | .ok guestPath =>
          match substituteBindingStat w fin guestPath with
          | .error e => .error e
          | .ok _ =>
            canonicalizeLoop w recurse derefFinal recursionLevel (symlinksFollowed + 1) guestPath
              fin rest := by
  rw [canonicalizeLoop, World.round]
  by_cases hdot : comp = str "."
  · rw [if_pos hdot, if_pos hdot]
  rw [if_neg hdot, if_neg hdot]
  by_cases hdotDot : comp = str ".."
  · rw [if_pos hdotDot, if_pos hdotDot]
  rw [if_neg hdotDot, if_neg hdotDot]
  cases joinPaths guestPath comp with
  | error e => rfl
  | ok scratchPath =>
    dsimp only
    cases substituteBindingStat w fin scratchPath with
    | error e => rfl
    | ok stat =>
      dsimp only
      by_cases heloop : (if stat.1 = true then
          checkLink w.tracee fin recursionLevel scratchPath else .keep) = .eloop
      · rw [if_pos heloop, if_pos heloop]
      rw [if_neg heloop, if_neg heloop]
      by_cases hkeep : (if stat.1 = true then
          checkLink w.tracee fin recursionLevel scratchPath else .keep) = .keep ∨
            (fin = .finalNormal ∧ ¬ derefFinal = true)
      · rw [if_pos hkeep, if_pos hkeep]
      rw [if_neg hkeep, if_neg hkeep]
      cases linkContent w fin guestPath comp stat.2 with
      | error e => rfl
      | ok content => cases content <;> rfl

/-! ### One call -/

/-- What a call makes of the result of its loop. -/
def finish (recursionLevel : ℕ) : Except Errno (CStr × Option Finality) → Except Errno CStr
  | .error e => .error e
  | .ok (guestPath, none) => .ok guestPath
  | .ok (guestPath, some fin) =>
    .ok (if recursionLevel = 0 then addFinality guestPath fin else guestPath)

section

variable {w : World} {derefFinal : Bool} {recursionLevel : ℕ}

/-- What a call makes of its loop, named. -/
theorem canonicalizeFrom_succ {fuel : ℕ} (hlevel : recursionLevel ≤ w.maxSymlinks)
    (userPath guestPath : CStr) :
    canonicalizeFrom w (fuel + 1) userPath derefFinal guestPath recursionLevel =
      if pathMax ≤ userPath.length then .error .enametoolong
      else if ¬ IsAbsolute userPath ∧ ¬ IsAbsolute guestPath ∧ recursionLevel ≠ 0 then
        .error .einval
      else
        finish recursionLevel
          (canonicalizeLoop w (fun path => canonicalizeFrom w fuel path true) derefFinal
            recursionLevel 0 (if IsAbsolute userPath ∨ ¬ IsAbsolute guestPath then ['/']
              else guestPath) .notFinal (nextComponents userPath.length userPath)) := by
  rw [canonicalizeFrom, if_neg (by omega)]
  by_cases hlong : pathMax ≤ userPath.length
  · rw [if_pos hlong, if_pos hlong]
  rw [if_neg hlong, if_neg hlong]
  by_cases hrelative : ¬ IsAbsolute userPath ∧ ¬ IsAbsolute guestPath ∧ recursionLevel ≠ 0
  · rw [if_pos hrelative, if_pos hrelative]
  rw [if_neg hrelative, if_neg hrelative]
  dsimp only
  generalize canonicalizeLoop w _ derefFinal recursionLevel 0 _ .notFinal _ = result
  match result with
  | .error e => rfl
  | .ok (_, none) => rfl
  | .ok (_, some _) => rfl

/-- A call on a level that is too high. -/
theorem canonicalizeFrom_of_lt {fuel : ℕ} (hlevel : w.maxSymlinks < recursionLevel)
    (userPath guestPath : CStr) :
    canonicalizeFrom w fuel userPath derefFinal guestPath recursionLevel = .error .eloop := by
  cases fuel with
  | zero => rfl
  | succ fuel => rw [canonicalizeFrom, if_pos hlevel]

end

end NeoProot
