import NeoProot.Extension.FakeId0
import Mathlib.Data.Bool.Basic

/-!
# Fake credentials against the kernel's rules

For each macro of `fake_id0` the arguments it answers as the kernel does, and from
that, over a run, when a tracee cannot tell its identity from a real one.

## Main definitions

* `SetxidFollows`, `SetrexidFollows`, `SetresxidFollows`, `SetfsxidFollows`,
  `ExecFollows` — the arguments that are answered alike.
* `Config.FollowsLinux` — the calls that are answered alike.
-/

namespace NeoProot.FakeId0

variable {host : HostIds} {root : Bool} {c : Ids} {id real effective saved fs : UInt32}

/-! ### One call on four ids -/

/-- `SETXID` in one step.  The test of the tracer's effective id adds nothing, because
it asks for the effective id of the tracee. -/
theorem setxid_eq (host : HostIds) (root : Bool) (c : Ids) (id : UInt32) :
    setxid host root c id =
      if root = true ∨ id = c.real ∨ id = c.effective ∨ id = c.saved ∨
          (c.effective ≠ 0 ∧ id = host.real) then
        .ok ⟨if root then id else c.real, id, if root then id else c.saved, id⟩
      else .error .eperm := by
  rw [setxid]
  by_cases hself : id = host.effective ∧ c.effective = host.effective
  · have heff : id = c.effective := hself.1.trans hself.2.symm
    cases root
    · simp [hself]
    · simp [hself]
  · cases root
    · simp only [hself, if_false]
      grind
    · simp [hself]

/-- `SETXID` accepts `-1` and, without the capability, the effective id and the
tracer's own. -/
def SetxidFollows (host : HostIds) (root : Bool) (c : Ids) (id : UInt32) : Prop :=
  id ≠ unset ∧
    (root = true ∨ id = c.real ∨ id = c.saved ∨
      (id ≠ c.effective ∧ ¬ (c.effective ≠ 0 ∧ id = host.real)))

theorem setxid_eq_iff :
    setxid host root c id = Linux.setxid root c id ↔ SetxidFollows host root c id := by
  rw [setxid_eq, Linux.setxid, SetxidFollows]
  by_cases hunset : id = unset
  · -- The kernel refuses `-1` with an error the macro never gives.
    refine iff_of_false (fun heq => ?_) fun h => h.1 hunset
    rw [if_pos hunset] at heq
    split at heq <;> simp at heq
  · rw [if_neg hunset]
    cases root with
    | true => simp [hunset]
    | false =>
      by_cases hown : id = c.real ∨ id = c.saved
      · have hallowed : id = c.real ∨ id = c.effective ∨ id = c.saved ∨
            (c.effective ≠ 0 ∧ id = host.real) := by tauto
        simp only [Bool.false_eq_true, false_or, if_false, if_pos hown, if_pos hallowed, true_iff]
        tauto
      · have hdenied : (id = c.real ∨ id = c.effective ∨ id = c.saved ∨
            (c.effective ≠ 0 ∧ id = host.real)) ↔
              (id = c.effective ∨ (c.effective ≠ 0 ∧ id = host.real)) := by tauto
        simp only [Bool.false_eq_true, false_or, if_false, if_neg hown, hdenied]
        split
        · simp only [reduceCtorEq, false_iff]
          tauto
        · simp only [true_iff]
          tauto

/-- `SETREXID` refuses to set the real id to the effective one and the effective id to
the saved one in one call, and leaves the other ids alone where the effective id is
not given. -/
def SetrexidFollows (root : Bool) (c : Ids) (real effective : UInt32) : Prop :=
  Linux.mayReset root c real effective = false ∨
    ((root = true ∨ ¬ (real = c.effective ∧ real ≠ unset ∧ real ≠ c.real ∧
        effective = c.saved ∧ effective ≠ unset ∧ effective ≠ c.real ∧
        effective ≠ c.effective)) ∧
      (effective = unset → c.fs = c.effective ∧ (real ≠ unset → c.saved = c.effective)))

theorem setrexid_eq_iff :
    setrexid root c real effective = Linux.setrexid root c real effective ↔
      SetrexidFollows root c real effective := by
  obtain ⟨r, e, s, f⟩ := c
  simp only [setrexid, Linux.setrexid, SetrexidFollows, Linux.mayReset, unchangedId]
  cases root <;> grind

/-- `SETRESXID` leaves the file-system id alone where the effective id is not given. -/
def SetresxidFollows (root : Bool) (c : Ids) (real effective saved : UInt32) : Prop :=
  Linux.mayResetAll root c real effective saved = false ∨ effective ≠ unset ∨ c.fs = c.effective

theorem setresxid_eq_iff :
    setresxid root c real effective saved = Linux.setresxid root c real effective saved ↔
      SetresxidFollows root c real effective saved := by
  obtain ⟨r, e, s, f⟩ := c
  simp only [setresxid, Linux.setresxid, SetresxidFollows, Linux.mayResetAll, equalsAnyId,
    List.all_cons, List.all_nil, Bool.and_true]
  cases root <;> grind

/-- `SETFSXID` takes `-1` for an id. -/
def SetfsxidFollows (root : Bool) (c : Ids) (fs : UInt32) : Prop :=
  fs = unset → c.fs = unset ∨
    (root = false ∧ c.real ≠ unset ∧ c.effective ≠ unset ∧ c.saved ≠ unset)

theorem setfsxid_eq_iff :
    setfsxid root c fs = Linux.setfsxid root c fs ↔ SetfsxidFollows root c fs := by
  obtain ⟨r, e, s, f⟩ := c
  simp only [setfsxid, Linux.setfsxid, SetfsxidFollows, equalsAnyId]
  cases root <;> grind

/-- An `execve` changes the saved id only for set-id programs, and never the file-system
id.  `given` says whether the extension sees a set-id program, `setId` whether the
kernel does. -/
def ExecFollows (given setId : Bool) (c : Ids) : Prop :=
  if given then (setId = true ∨ c.effective = 0) ∧ c.fs = 0
  else (setId = true → c.effective = 0) ∧ c.saved = c.effective ∧ c.fs = c.effective

theorem execve_eq_iff (given setId : Bool) (c : Ids) :
    (if given then { c with effective := 0, saved := 0 } else c) = Linux.execve setId c ↔
      ExecFollows given setId c := by
  obtain ⟨r, e, s, f⟩ := c
  cases given <;> cases setId <;> simp [Linux.execve, ExecFollows] <;> grind

/-! ### Runs -/

theorem Config.putUid_injective (c : Config) : Function.Injective c.putUid := by
  intro x y h
  cases x <;> cases y <;> simp_all [putUid]

theorem Config.putGid_injective (c : Config) : Function.Injective c.putGid := by
  intro x y h
  cases x <;> cases y <;> simp_all [putGid]

/-- The calls that the extension answers as the kernel does. -/
def Config.FollowsLinux (hostUid hostGid : HostIds) (c : Config) : Call → Prop
  | .setuid id => SetxidFollows hostUid (c.uid.effective = 0) c.uid id.toUInt32
  | .setgid id => SetxidFollows hostGid (c.uid.effective = 0) c.gid id.toUInt32
  | .setreuid real effective =>
    SetrexidFollows (c.uid.effective = 0) c.uid real.toUInt32 effective.toUInt32
  | .setregid real effective =>
    SetrexidFollows (c.uid.effective = 0) c.gid real.toUInt32 effective.toUInt32
  | .setresuid real effective saved =>
    SetresxidFollows (c.uid.effective = 0) c.uid real.toUInt32 effective.toUInt32 saved.toUInt32
  | .setresgid real effective saved =>
    SetresxidFollows (c.uid.effective = 0) c.gid real.toUInt32 effective.toUInt32 saved.toUInt32
  | .setfsuid fs => SetfsxidFollows (c.uid.effective = 0) c.uid fs.toUInt32
  | .setfsgid fs => SetfsxidFollows (c.uid.effective = 0) c.gid fs.toUInt32
  | .execve x =>
    x.failed = true ∨
      (ExecFollows (!x.nosuid && x.found && x.mode &&& sIsuid ≠ 0)
          (!x.nosuid && x.mode &&& sIsuid ≠ 0) c.uid ∧
        ExecFollows (!x.nosuid && x.found && x.mode &&& sIsgid ≠ 0)
          (!x.nosuid && x.mode &&& sIsgid ≠ 0 && x.mode &&& sIxgrp ≠ 0) c.gid)

/-- The ids that `handle_sysexit_start` leaves, each kind by itself. -/
theorem Config.exitStart_eq (c : Config) (x : Exec) (hok : x.failed = false) :
    c.exitStart x =
      { uid := if (!x.nosuid && x.found && x.mode &&& sIsuid ≠ 0 : Bool) then
          { c.uid with effective := 0, saved := 0 } else c.uid
        gid := if (!x.nosuid && x.found && x.mode &&& sIsgid ≠ 0 : Bool) then
          { c.gid with effective := 0, saved := 0 } else c.gid } := by
  simp only [exitStart, hok]
  cases x.nosuid with
  | true => simp
  | false =>
    cases x.found with
    | false => simp
    | true =>
      by_cases hu : x.mode &&& sIsuid = 0
      · by_cases hg : x.mode &&& sIsgid = 0 <;> simp [hu, hg]
      · by_cases hg : x.mode &&& sIsgid = 0 <;> simp [hu, hg]

/-- **One call is answered as the kernel answers it exactly when it is one of those
calls.** -/
theorem Config.exitEnd_eq_iff (hostUid hostGid : HostIds) (c : Config) (call : Call) :
    c.exitEnd hostUid hostGid call = Linux.call c call ↔ c.FollowsLinux hostUid hostGid call := by
  cases call with
  | setuid id => exact c.putUid_injective.eq_iff.trans setxid_eq_iff
  | setgid id => exact c.putGid_injective.eq_iff.trans setxid_eq_iff
  | setreuid real effective => exact c.putUid_injective.eq_iff.trans setrexid_eq_iff
  | setregid real effective => exact c.putGid_injective.eq_iff.trans setrexid_eq_iff
  | setresuid real effective saved => exact c.putUid_injective.eq_iff.trans setresxid_eq_iff
  | setresgid real effective saved => exact c.putGid_injective.eq_iff.trans setresxid_eq_iff
  | setfsuid fs =>
    rw [FollowsLinux, ← setfsxid_eq_iff]
    simp [exitEnd, Linux.call, Prod.ext_iff]
  | setfsgid fs =>
    rw [FollowsLinux, ← setfsxid_eq_iff]
    simp [exitEnd, Linux.call, Prod.ext_iff]
  | execve x =>
    rw [exitEnd, Linux.call, FollowsLinux]
    cases hfailed : x.failed with
    | true => simp [exitStart, hfailed]
    | false =>
      rw [c.exitStart_eq x hfailed, ← execve_eq_iff, ← execve_eq_iff]
      simp

/-- **A tracee cannot tell its identity from a real one exactly as long as its calls
are answered alike.** -/
theorem trace_exitEnd_iff (hostUid hostGid : HostIds) (uid gid : UInt32) (calls : List Call) :
    Run.trace (Config.exitEnd hostUid hostGid) (.initial uid gid) calls =
        Run.trace Linux.call (.initial uid gid) calls ↔
      Run.AllSteps (fun c call => (c.exitEnd hostUid hostGid call).1)
        (Config.FollowsLinux hostUid hostGid) (.initial uid gid) calls := by
  rw [Run.trace_eq_iff]
  exact Run.allSteps_congr (fun c call => c.exitEnd_eq_iff hostUid hostGid call) _ _

/-- A process of root that gives up two of its ids, and then exchanges them. -/
def exchangeCalls : List Call := [.setresuid 1000 2000 3000, .setreuid 2000 3000]

theorem exists_call_refused :
    ¬ ∀ (hostUid hostGid : HostIds) (uid gid : UInt32) (calls : List Call),
      Run.trace (Config.exitEnd hostUid hostGid) (.initial uid gid) calls =
        Run.trace Linux.call (.initial uid gid) calls := by
  intro hall
  exact absurd (hall ⟨10000, 10000⟩ ⟨10000, 10000⟩ 0 0 exchangeCalls) (by decide)

end NeoProot.FakeId0
