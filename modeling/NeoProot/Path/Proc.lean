import Mathlib.Algebra.Ring.Nat
import NeoProot.Tracee.Tracee

/-!
# Links under `/proc`

Some links under `/proc` would name the tracer where the guest expects the
tracee.  `readlinkProc` answers for them.

## Main definitions

* `readlinkProc` — the emulated content of one link.
* `readlinkProc2` — the same for a canonical path below `/proc`.
-/

namespace NeoProot

/-- `Action`, with the result buffer where one is filled. -/
inductive Action
  | default
  | canonicalize (result : CStr)
  | dontCanonicalize (result : CStr)
  deriving DecidableEq, Repr

/-- `isspace(3)`. -/
def isSpace (c : Char) : Bool := c = ' ' || ('\t' ≤ c && c ≤ '\r')

/-- The sign and the digits a number starts with, behind white space. -/
def numberParts (s : CStr) : Bool × CStr :=
  match s.dropWhile isSpace with
  | '-' :: s => (true, s.takeWhile Char.isDigit)
  | '+' :: s => (false, s.takeWhile Char.isDigit)
  | s => (false, s.takeWhile Char.isDigit)

/-- The value of a number in decimal. -/
def decimalValue (s : CStr) : ℕ := s.foldl (fun n c => 10 * n + (c.toNat - '0'.toNat)) 0

/-- `atoi(3)`. -/
def atoi (s : CStr) : ℤ :=
  match numberParts s with
  | (true, ds) => -(decimalValue ds)
  | (false, ds) => decimalValue ds

/-- Whether `strtol(3)` reads a number in base 10 and it fits a `long`. -/
def strtolSucceeds (s : CStr) : Bool :=
  match numberParts s with
  | (_, []) => false
  | (true, ds) => decide (decimalValue ds ≤ 2 ^ 63)
  | (false, ds) => decide (decimalValue ds < 2 ^ 63)

/-- `snprintf(..., "/proc/%d", pid)`. -/
def procPath (pid : ℤ) : CStr := str "/proc/" ++ str (toString pid)

/-- `readlink_proc`.  `getTracee` finds the traced process of a number. -/
def readlinkProc (tracee : Tracee) (getTracee : ℤ → Option Tracee) (base component : CStr)
    (comparison : Comparison) : Except Errno Action :=
  match comparison with
  | .pathsAreEqual =>
    -- Substitute "/proc/self" with "/proc/<PID>".
    if component ≠ str "self" then .ok .default else .ok (.canonicalize (procPath tracee.pid))
  | .path1IsPrefix =>
    let self := (base.drop 6).take 4 = str "self" ∧ (base[10]? = some '/' ∨ base[10]? = none)
    let base' := if self then procPath tracee.pid ++ base.drop 10 else base
    if self ∧ pathMax ≤ base'.length then .error .eperm
    else
      let pid := atoi (base'.drop 6)
      if pid = 0 then .ok .default
      else
        match comparePaths (procPath pid) base' with
        | .pathsAreEqual =>
          match getTracee pid with
          | none => .ok .default
          | some knownTracee =>
            if component = str "exe" then .ok (.canonicalize knownTracee.exe)
            else if component = str "cwd" then .ok (.canonicalize knownTracee.fs.cwd)
            else if component = str "root" then
              .ok (.canonicalize (knownTracee.fs.bindings.getRoot.getD []))
            else .ok .default
        | .path1IsPrefix =>
          match comparePaths (procPath pid ++ str "/fd") base' with
          | .pathsAreEqual =>
            -- Sanity check: a number is expected.
            if ¬ strtolSucceeds component then .error .eperm
            else
              let result := base' ++ '/' :: component
              if pathMax ≤ result.length then .error .eperm else .ok (.dontCanonicalize result)
          | _ => .ok .default
        | _ => .ok .default
  | _ => .ok .default

/-- `strrchr(path, '/')` splits a path: what stands in front of the last slash
and what stands behind it. -/
def splitLast (path : CStr) : CStr × CStr :=
  let component := (path.reverse.takeWhile (· ≠ '/')).reverse
  (path.take (path.length - component.length - 1), component)

/-- `readlink_proc2`: the emulated content, if there is one. -/
def readlinkProc2 (tracee : Tracee) (getTracee : ℤ → Option Tracee) (referer : CStr) :
    Except Errno (Option CStr) :=
  if pathMax ≤ referer.length then .error .enametoolong
  else
    let (base, component) := splitLast referer
    if component = [] then .ok none
    else
      -- The source compares the action with CANONICALIZE only, so an error is
      -- no emulation either.
      match readlinkProc tracee getTracee base component (comparePaths (str "/proc") base) with
      | .ok (.canonicalize result) => .ok (if result = [] then none else some result)
      | _ => .ok none

end NeoProot
