import NeoProot.SysVIpc.Wakeups
import Mathlib.Data.List.GetD
import Mathlib.Algebra.Ring.Int.Defs

/-!
# The values of semaphore sets

An array of operations takes effect as a whole: each operation is tested on the values that
the operations before it give, and the set has afterwards what all of them add up to, or what
it had.  `semValues_of_run` says this of every array that is tried in a run, whether by the
tracee that calls `semop` or for one that waits.

## Main definitions

* `delta` — what operations add to a semaphore.
* `Allows` — the condition of one operation on a value.
* `SemWorld.InRange` — no value is beyond the largest.
-/

namespace NeoProot.SysVIpc

open Run

variable {sop : SysVIpcSembuf} {vals vals' : List ℕ} {sops : List SysVIpcSembuf} {w : SemWorld}

/-! ### Operations in sequence -/

/-- What the operations add to a semaphore. -/
def delta (sops : List SysVIpcSembuf) (k : ℕ) : ℤ :=
  (sops.map fun sop => if sop.semNum = k then sop.semOp else 0).sum

/-- The value of a semaphore when the operations have been added. -/
def valueAfter (vals : List ℕ) (sops : List SysVIpcSembuf) (k : ℕ) : ℤ :=
  (vals.getD k 0 : ℕ) + delta sops k

/-- The operation can be performed on a value: a wait for zero on zero, any other when the sum is
in range. -/
def Allows (sop : SysVIpcSembuf) (val : ℤ) : Prop :=
  if sop.semOp = 0 then val = 0
  else 0 ≤ val + sop.semOp ∧ val + sop.semOp ≤ SYSVIPC_MAX_SEMVAL

/-- Each operation names a semaphore of the set and is allowed by its value after the operations
before it. -/
def AllowedInTurn (vals : List ℕ) (sops : List SysVIpcSembuf) : Prop :=
  ∀ i (hi : i < sops.length),
    sops[i].semNum < vals.length ∧ Allows sops[i] (valueAfter vals (sops.take i) sops[i].semNum)

/-- The set has the values that the operations add up to. -/
def AddsUp (vals : List ℕ) (sops : List SysVIpcSembuf) (vals' : List ℕ) : Prop :=
  vals'.length = vals.length ∧ ∀ k < vals.length, (vals'.getD k 0 : ℤ) = valueAfter vals sops k

@[simp] theorem delta_nil (k : ℕ) : delta [] k = 0 := rfl

theorem delta_cons (sop : SysVIpcSembuf) (sops : List SysVIpcSembuf) (k : ℕ) :
    delta (sop :: sops) k = (if sop.semNum = k then sop.semOp else 0) + delta sops k := by
  rw [delta, List.map_cons, List.sum_cons, delta]

theorem delta_cons_zero (hop : sop.semOp = 0) (sops : List SysVIpcSembuf) (k : ℕ) :
    delta (sop :: sops) k = delta sops k := by
  rw [delta_cons, hop, ite_self, Int.zero_add]

/-- A wait for zero adds nothing. -/
theorem valueAfter_cons_zero (hop : sop.semOp = 0) (vals : List ℕ) (sops : List SysVIpcSembuf)
    (k : ℕ) : valueAfter vals (sop :: sops) k = valueAfter vals sops k := by
  rw [valueAfter, delta_cons_zero hop, valueAfter]

/-- The first operation is added, and the rest to what that gives. -/
theorem valueAfter_cons_add {val new : ℕ} (hval : vals[sop.semNum]? = some val)
    (hnew : (val : ℤ) + sop.semOp = new) (sops : List SysVIpcSembuf) (k : ℕ) :
    valueAfter vals (sop :: sops) k = valueAfter (vals.set sop.semNum new) sops k := by
  obtain ⟨hlt, -⟩ := List.getElem?_eq_some_iff.1 hval
  rw [valueAfter, valueAfter, delta_cons]
  by_cases hk : sop.semNum = k
  · subst hk
    rw [if_pos rfl, List.getD_eq_getElem?_getD, List.getD_eq_getElem?_getD, hval,
      List.getElem?_set_self hlt]
    simp only [Option.getD_some]
    omega
  · rw [if_neg hk, List.getD_eq_getElem?_getD, List.getD_eq_getElem?_getD,
      List.getElem?_set_ne hk, Int.zero_add]

theorem allowedInTurn_cons {vals₁ : List ℕ} (hlength : vals₁.length = vals.length)
    (hvalue : ∀ sops k, valueAfter vals (sop :: sops) k = valueAfter vals₁ sops k) :
    AllowedInTurn vals (sop :: sops) ↔
      (sop.semNum < vals.length ∧ Allows sop (vals.getD sop.semNum 0 : ℕ)) ∧
        AllowedInTurn vals₁ sops := by
  constructor
  · intro h
    constructor
    · have hfirst := h 0 (Nat.succ_pos _)
      simpa [valueAfter] using hfirst
    · intro i hi
      have hnext := h (i + 1) (Nat.succ_lt_succ hi)
      rw [hlength]
      simpa [hvalue] using hnext
  · rintro ⟨hfirst, hrest⟩ i hi
    cases i with
    | zero => simpa [valueAfter] using hfirst
    | succ i =>
      have hnext := hrest i (Nat.lt_of_succ_lt_succ hi)
      rw [hlength] at hnext
      simpa [hvalue] using hnext

theorem addsUp_congr {vals₁ : List ℕ} (hlength : vals₁.length = vals.length)
    (hvalue : ∀ sops k, valueAfter vals (sop :: sops) k = valueAfter vals₁ sops k) :
    AddsUp vals (sop :: sops) vals' ↔ AddsUp vals₁ sops vals' := by
  simp only [AddsUp, hlength, hvalue]

/-- Operations that are performed are allowed, each in its turn, and add up. -/
theorem Performs.addsUp (h : Performs sops vals vals') :
    AllowedInTurn vals sops ∧ AddsUp vals sops vals' := by
  induction h with
  | nil vals =>
    constructor
    · intro i hi
      exact absurd hi (Nat.not_lt_zero i)
    · refine ⟨rfl, fun k _ => ?_⟩
      rw [valueAfter, delta_nil, Int.add_zero]
  | @zero sop sops vals vals' hop hval _ ih =>
    obtain ⟨hlt, -⟩ := List.getElem?_eq_some_iff.1 hval
    rw [allowedInTurn_cons rfl (valueAfter_cons_zero hop vals),
      addsUp_congr rfl (valueAfter_cons_zero hop vals), Allows, if_pos hop,
      List.getD_eq_getElem?_getD, hval]
    exact ⟨⟨⟨hlt, rfl⟩, ih.1⟩, ih.2⟩
  | @add sop sops vals vals' val new hop hval hnew hmax _ ih =>
    obtain ⟨hlt, -⟩ := List.getElem?_eq_some_iff.1 hval
    have hset : (vals.set sop.semNum new).length = vals.length := List.length_set
    rw [allowedInTurn_cons hset (valueAfter_cons_add hval hnew),
      addsUp_congr hset (valueAfter_cons_add hval hnew), Allows, if_neg hop,
      List.getD_eq_getElem?_getD, hval, Option.getD_some]
    exact ⟨⟨⟨hlt, by omega⟩, ih.1⟩, ih.2⟩

/-- Operations that are allowed, each in its turn, can be performed. -/
theorem AllowedInTurn.satisfiable (h : AllowedInTurn vals sops) : Satisfiable sops vals := by
  induction sops generalizing vals with
  | nil => exact ⟨vals, .nil vals⟩
  | cons sop sops ih =>
    have hfirst := h 0 (Nat.succ_pos _)
    rw [List.getElem_cons_zero, List.take_zero, valueAfter, delta_nil, Int.add_zero] at hfirst
    obtain ⟨hlt, hallows⟩ := hfirst
    have hval : vals[sop.semNum]? = some vals[sop.semNum] := List.getElem?_eq_getElem hlt
    rw [List.getD_eq_getElem _ _ hlt, Allows] at hallows
    by_cases hop : sop.semOp = 0
    · rw [if_pos hop, Int.natCast_eq_zero] at hallows
      rw [allowedInTurn_cons rfl (valueAfter_cons_zero hop vals)] at h
      obtain ⟨vals', hrest⟩ := ih h.2
      exact ⟨vals', .zero hop (hallows ▸ hval) hrest⟩
    · rw [if_neg hop] at hallows
      have hnew : (vals[sop.semNum] : ℤ) + sop.semOp =
          ((vals[sop.semNum] : ℤ) + sop.semOp).toNat := by omega
      rw [allowedInTurn_cons List.length_set (valueAfter_cons_add hval hnew)] at h
      obtain ⟨vals', hrest⟩ := ih h.2
      exact ⟨vals', .add hop hval hnew (by omega) hrest⟩

/-! ### All or nothing -/

theorem checkOps_fail {errno : ℤ} (h : checkOps sops vals = .fail errno) : errno ≠ 0 := by
  induction sops generalizing vals with
  | nil => cases h
  | cons sop sops ih =>
    rw [checkOps] at h
    split at h
    · cases h
      decide
    · split at h
      · split at h
        · split at h
          · cases h
            decide
          · cases h
        · exact ih h
      · dsimp only at h
        split at h
        · split at h
          · cases h
            decide
          · cases h
        · split at h
          · cases h
            decide
          · exact ih h

/-- The status of `sem_check` is 0 exactly when the operations have been performed. -/
theorem status_semCheck_eq_zero :
    (semCheck sops vals).status = 0 ↔ ∃ vals', semCheck sops vals = .done vals' := by
  cases h : semCheck sops vals with
  | done vals' => simp [CheckResult.status]
  | wait => simp [CheckResult.status]
  | fail errno =>
    have hne : errno ≠ 0 := by
      rw [semCheck] at h
      split at h
      · cases h
        decide
      · exact checkOps_fail h
    simp [CheckResult.status, hne]

/-- The operations are performed as a whole, when each is allowed in its turn, or not at all. -/
structure AllOrNothing (sops : List SysVIpcSembuf) (vals : List ℕ) : Prop where
  nothing : (semCheck sops vals).status ≠ 0 → (semCheck sops vals).values vals = vals
  allowed : (semCheck sops vals).status = 0 ↔ AllowedInTurn vals sops
  addsUp : (semCheck sops vals).status = 0 → AddsUp vals sops ((semCheck sops vals).values vals)

theorem allOrNothing_of_length_le (sops : List SysVIpcSembuf)
    (hlen : vals.length ≤ SYSVIPC_MAX_NSEMS) : AllOrNothing sops vals := by
  constructor
  · intro hstatus
    cases h : semCheck sops vals with
    | done vals' => exact absurd (status_semCheck_eq_zero.2 ⟨vals', h⟩) hstatus
    | wait => rfl
    | fail errno => rfl
  · rw [status_semCheck_eq_zero, ← satisfiable_iff hlen]
    constructor
    · rintro ⟨vals', h⟩
      exact h.addsUp.1
    · intro h
      exact h.satisfiable
  · intro hstatus
    obtain ⟨vals', h⟩ := status_semCheck_eq_zero.1 hstatus
    rw [h]
    exact ((semCheck_eq_done hlen).1 h).addsUp.2

/-! ### The range of the values -/

/-- No value is beyond the largest. -/
def ValuesInRange (vals : List ℕ) : Prop := ∀ val ∈ vals, val ≤ SYSVIPC_MAX_SEMVAL

/-- Every value of every set is in range. -/
def SemWorld.InRange (w : SemWorld) : Prop := ∀ o ∈ w.semaphores, ValuesInRange o.content

theorem ValuesInRange.set (h : ValuesInRange vals) (k : ℕ) {new : ℕ}
    (hnew : new ≤ SYSVIPC_MAX_SEMVAL) : ValuesInRange (vals.set k new) := by
  intro val hval
  rcases List.mem_or_eq_of_mem_set hval with hval | rfl
  · exact h val hval
  · exact hnew

theorem Performs.valuesInRange (h : Performs sops vals vals') (hrange : ValuesInRange vals) :
    ValuesInRange vals' := by
  induction h with
  | nil => exact hrange
  | zero _ _ _ ih => exact ih hrange
  | add _ _ _ hmax _ ih => exact ih (hrange.set _ hmax)

theorem ValuesInRange.semCheck (h : ValuesInRange vals) (sops : List SysVIpcSembuf) :
    ValuesInRange ((SysVIpc.semCheck sops vals).values vals) := by
  cases hcheck : SysVIpc.semCheck sops vals with
  | done vals' =>
    rw [SysVIpc.semCheck] at hcheck
    split at hcheck
    · cases hcheck
    · exact (checkOps_eq_done.1 hcheck).valuesInRange h
  | wait => exact h
  | fail errno => exact h

theorem ValuesInRange.passValues (h : ValuesInRange vals) (self idx : ℕ) (cs : List IpcTracee) :
    ValuesInRange (SysVIpc.passValues self idx vals cs) := by
  induction cs generalizing vals with
  | nil => exact h
  | cons c cs ih =>
    rw [SysVIpc.passValues, List.foldl_cons, ← SysVIpc.passValues]
    split
    · exact ih (h.semCheck c.semopSops)
    · exact ih h

theorem SemWorld.InRange.handle (h : w.InRange) (self : ℕ) (call : SemCall) :
    (w.handle self call).1.InRange := by
  cases call with
  | semget a =>
    simp only [SemWorld.handle]
    obtain hsame | ⟨o, n, hplace, hcontent, -⟩ := semget_objects w.semaphores a
    · rw [InRange, hsame]
      exact h
    · rw [InRange, hplace]
      intro p hp
      obtain rfl | hp := mem_place hp
      · rw [hcontent]
        intro val hval
        rw [List.eq_of_mem_replicate hval]
        exact Nat.zero_le _
      · exact h p hp
  | semop a =>
    simp only [SemWorld.handle, SysVIpc.semop]
    cases ht : semopTarget w.semaphores a with
    | error errno => exact h
    | ok target =>
      obtain ⟨-, o, ho, hvals⟩ := semopTarget_eq_ok ht
      have hold : ValuesInRange target.2 := hvals ▸ h o (List.mem_of_getElem? ho)
      apply forall_mem_modify h
      intro _ _
      dsimp only
      rw [wakePass_fst]
      exact (hold.semCheck a.sops).passValues self target.1 w.tracees
  | semctl a =>
    simp only [SemWorld.handle]
    obtain ⟨hsame, -⟩ | ⟨idx, vals, hwrites, heq⟩ | ⟨idx, -, -, heq⟩ := semctl_cases w a
    · rw [hsame]
      exact h
    · obtain ⟨-, -, o, ho, -, -, harg, hvals⟩ := hwrites
      rw [heq]
      apply forall_mem_modify h
      intro _ _
      rw [hvals]
      exact (h o (List.mem_of_getElem? ho)).set _ harg
    · rw [heq]
      apply forall_mem_modify h
      intro _ _ val hval
      cases hval

theorem SemWorld.InRange.step (h : w.InRange) (e : SemEvent) : (w.step e).InRange := by
  cases e with
  | call pid fromSigsys call =>
    rw [SemWorld.step]
    split
    · exact h
    · exact h.handle pid call
  | enter pid => exact h
  | leave pid => exact h
  | clone parent child thread => exact h
  | exit pid => exact h

/-! ### The calls -/

/-- What `semop` does: nothing when its checks fail, else the pass over the operations of the
caller and then of those who wait, each as a whole. -/
def SemopWhole (w : SemWorld) (self : ℕ) (a : SemopArgs) : Prop :=
  match semopTarget w.semaphores a with
  | .error errno => semop w self a = (w, -errno)
  | .ok (idx, vals) =>
    let own := (semCheck a.sops vals).values vals
    AllOrNothing a.sops vals ∧
    (∀ cs c cs', w.tracees = cs ++ c :: cs' →
      AllOrNothing c.semopSops (passValues self idx own cs)) ∧
    contentAt (semop w self a).1.semaphores =
      Function.update (contentAt w.semaphores) idx (some (passValues self idx own w.tracees))

/-- What `SETVAL` does to a semaphore of a live set: it stores its argument, and that one only, or
answers `ERANGE` and changes nothing. -/
def SetvalStores (w : SemWorld) (a : SemctlArgs) : Prop :=
  a.cmd &&& ~~~SYSVIPC_IPC_64 = SYSVIPC_SETVAL →
    ∀ idx vals, lookupIpcObject w.semaphores a.semid = some idx →
      contentAt w.semaphores idx = some vals → 0 ≤ a.semNum → a.semNum < vals.length →
        if a.arg.toNat ≤ SYSVIPC_MAX_SEMVAL then
          (semctl w a).2 = 0 ∧
            contentAt (semctl w a).1.semaphores =
              Function.update (contentAt w.semaphores) idx
                (some (vals.set a.semNum.toNat a.arg.toNat))
        else semctl w a = (w, -ERANGE)

theorem semopWhole (h : w.Inv) (self : ℕ) (a : SemopArgs) : SemopWhole w self a := by
  rw [SemopWhole]
  cases ht : semopTarget w.semaphores a with
  | error errno => simp only [semop, ht]
  | ok target =>
    obtain ⟨hl, o, ho, hvals⟩ := semopTarget_eq_ok ht
    have hlen : target.2.length ≤ SYSVIPC_MAX_NSEMS :=
      hvals ▸ h.small o (List.mem_of_getElem? ho)
    refine ⟨allOrNothing_of_length_le a.sops hlen, ?_, ?_⟩
    · intro cs c cs' _
      apply allOrNothing_of_length_le
      rw [length_passValues, length_values_semCheck]
      exact hlen
    · obtain ⟨content, hcontent⟩ := (validAt_iff_contentAt _ _).1 (lookupIpcObject_validAt hl)
      simp only [semop, ht, wakePass_fst]
      exact contentAt_modifyContent hcontent fun _ =>
        passValues self target.1 ((semCheck a.sops target.2).values target.2) w.tracees

theorem setvalStores (w : SemWorld) (a : SemctlArgs) : SetvalStores w a := by
  intro hcmd idx vals hl hcontent hlow hhigh
  obtain ⟨o, ho, hcontent'⟩ := lookup_contentAt hl
  have hvals : o.content = vals := by
    rw [hcontent', Option.some.injEq] at hcontent
    exact hcontent
  have hget : SYSVIPC_SETVAL ≠ SYSVIPC_GETVAL := by decide
  have hnum : ¬ (a.semNum < 0 ∨ (vals.length : ℤ) ≤ a.semNum) := by omega
  simp only [semctl, hl, ho, hvals, hcmd, if_neg hget, if_pos, if_neg hnum]
  by_cases harg : SYSVIPC_MAX_SEMVAL < a.arg.toNat
  · rw [if_neg (by omega), if_pos harg]
  · rw [if_pos (by omega), if_neg harg]
    exact ⟨rfl, contentAt_modifyContent hcontent fun _ => vals.set a.semNum.toNat a.arg.toNat⟩

/-- **Arrays of operations take effect as a whole**, whoever calls or waits, and no run of the
tracees of a namespace leaves a value beyond the largest. -/
theorem semValues_of_run (pid : ℕ) (events : List SemEvent) :
    ∀ w ∈ states SemWorld.step (SemWorld.initial pid) events,
      w.InRange ∧ (∀ self a, SemopWhole w self a) ∧ ∀ a, SetvalStores w a := by
  have hinitial : (SemWorld.initial pid).InRange := by
    intro o ho
    cases ho
  intro w hw
  have hboth : w.Inv ∧ w.InRange :=
    invariant (A := fun _ => True) (I := fun w => w.Inv ∧ w.InRange)
      (fun _ e _ h => ⟨h.1.step e, h.2.step e⟩) ⟨SemWorld.inv_initial pid, hinitial⟩
      (fun _ _ => trivial) w hw
  exact ⟨hboth.2, semopWhole hboth.1, setvalStores w⟩

/-- A set of two semaphores, the first set to 3. -/
theorem semValues_of_setval : let events : List SemEvent :=
      [.call 1 false (.semget ⟨0, 2, IPC_CREAT, true, true⟩),
        .call 1 false (.semctl ⟨1, 0, SYSVIPC_SETVAL, 3, 0⟩)]
    let w := events.foldl SemWorld.step (SemWorld.initial 1)
    w ∈ states SemWorld.step (SemWorld.initial 1) events ∧
      w.InRange ∧ (∀ self a, SemopWhole w self a) ∧ ∀ a, SetvalStores w a :=
  ⟨foldl_mem_states SemWorld.step _ _,
    semValues_of_run 1 _ _ (foldl_mem_states SemWorld.step _ _)⟩

end NeoProot.SysVIpc
