import NeoProot.SysVIpc.Semaphores
import NeoProot.Lib.Run

/-!
# Waiting tracees and the values of their sets

When no handler is running, no tracee should wait for operations that the values
of its set allow.  `noLostWakeup_iff` says which calls break this: a `SETVAL`
that allows what a tracee waits for, since it wakes nobody, and a `semop` whose
pass completes a tracee that allows what an earlier one in the list waits for,
since the pass does not come back to it.

## Main definitions

* `Performs`, `Satisfiable` — operations that the values of a set allow.
* `SemWorld.NoLostWakeup` — no tracee waits for operations that are allowed.
* `LeavesNoneReady` — the condition on a call.
-/

namespace NeoProot.SysVIpc

open Run

variable {sops : List SysVIpcSembuf} {vals vals' : List ℕ} {idx self : ℕ}
  {objects : List SysVIpcSemaphore} {w : SemWorld} {c : IpcTracee}

/-! ### Operations that can be performed -/

/-- The operations take the values of a set to others, one after the other: a wait for zero
passes on a zero, any other operation adds to its semaphore within the bounds. -/
inductive Performs : List SysVIpcSembuf → List ℕ → List ℕ → Prop
  | nil (vals : List ℕ) : Performs [] vals vals
  | zero {sop : SysVIpcSembuf} {sops : List SysVIpcSembuf} {vals vals' : List ℕ}
      (hop : sop.semOp = 0) (hval : vals[sop.semNum]? = some 0) (h : Performs sops vals vals') :
      Performs (sop :: sops) vals vals'
  | add {sop : SysVIpcSembuf} {sops : List SysVIpcSembuf} {vals vals' : List ℕ} {val new : ℕ}
      (hop : sop.semOp ≠ 0) (hval : vals[sop.semNum]? = some val)
      (hnew : (val : ℤ) + sop.semOp = new) (hmax : new ≤ SYSVIPC_MAX_SEMVAL)
      (h : Performs sops (vals.set sop.semNum new) vals') : Performs (sop :: sops) vals vals'

/-- The values of a set allow the operations. -/
def Satisfiable (sops : List SysVIpcSembuf) (vals : List ℕ) : Prop :=
  ∃ vals', Performs sops vals vals'

theorem checkOps_eq_done : checkOps sops vals = .done vals' ↔ Performs sops vals vals' := by
  induction sops generalizing vals with
  | nil =>
    simp only [checkOps, CheckResult.done.injEq]
    constructor
    · intro h
      rw [h]
      exact .nil vals'
    · intro h
      cases h
      rfl
  | cons sop sops ih =>
    cases hval : vals[sop.semNum]? with
    | none =>
      simp only [checkOps, hval]
      constructor
      · intro h
        cases h
      · intro h
        cases h with
        | zero _ hv => rw [hval] at hv; cases hv
        | add _ hv => rw [hval] at hv; cases hv
    | some val =>
      simp only [checkOps, hval]
      by_cases hop : sop.semOp = 0
      · rw [if_pos hop]
        by_cases hzero : val = 0
        · rw [if_neg (not_not.2 hzero), ih]
          constructor
          · intro h
            exact .zero hop (hzero ▸ hval) h
          · intro h
            cases h with
            | zero _ _ h => exact h
            | add hop' => exact absurd hop hop'
        · rw [if_pos hzero]
          constructor
          · intro h
            split at h <;> cases h
          · intro h
            cases h with
            | zero _ hv => rw [hval, Option.some.injEq] at hv; exact absurd hv hzero
            | add hop' => exact absurd hop hop'
      · rw [if_neg hop]
        by_cases hneg : (val : ℤ) + sop.semOp < 0
        · rw [if_pos hneg]
          constructor
          · intro h
            split at h <;> cases h
          · intro h
            cases h with
            | zero hop' => exact absurd hop' hop
            | add _ hv hnew =>
              rw [hval, Option.some.injEq] at hv
              omega
        · rw [if_neg hneg]
          by_cases hmax : (SYSVIPC_MAX_SEMVAL : ℤ) < (val : ℤ) + sop.semOp
          · rw [if_pos hmax]
            constructor
            · intro h
              cases h
            · intro h
              cases h with
              | zero hop' => exact absurd hop' hop
              | add _ hv hnew hle =>
                rw [hval, Option.some.injEq] at hv
                omega
          · rw [if_neg hmax, ih]
            constructor
            · intro h
              exact .add hop hval (by omega) (by omega) h
            · intro h
              cases h with
              | zero hop' => exact absurd hop' hop
              | @add _ _ _ _ _ new _ hv hnew hle h =>
                rw [hval, Option.some.injEq] at hv
                have hnat : ((val : ℤ) + sop.semOp).toNat = new := by
                  rw [hv, hnew, Int.toNat_natCast]
                rw [hnat]
                exact h

/-- `sem_check` completes exactly the operations that the values of the set allow. -/
theorem semCheck_eq_done (hlen : vals.length ≤ SYSVIPC_MAX_NSEMS) :
    semCheck sops vals = .done vals' ↔ Performs sops vals vals' := by
  rw [semCheck, if_neg (by omega), checkOps_eq_done]

theorem satisfiable_iff (hlen : vals.length ≤ SYSVIPC_MAX_NSEMS) :
    Satisfiable sops vals ↔ ∃ vals', semCheck sops vals = .done vals' := by
  simp only [Satisfiable, semCheck_eq_done hlen]

theorem Performs.length_eq (h : Performs sops vals vals') : vals'.length = vals.length := by
  induction h with
  | nil => rfl
  | zero _ _ _ ih => exact ih
  | add _ _ _ _ _ ih => rw [ih, List.length_set]

theorem length_values_semCheck (sops : List SysVIpcSembuf) (vals : List ℕ) :
    ((semCheck sops vals).values vals).length = vals.length := by
  cases h : semCheck sops vals with
  | done vals' =>
    rw [semCheck] at h
    split at h
    · cases h
    · exact (checkOps_eq_done.1 h).length_eq
  | wait => rfl
  | fail => rfl

instance (sops : List SysVIpcSembuf) (vals : List ℕ) : Decidable (Satisfiable sops vals) :=
  match h : checkOps sops vals with
  | .done vals' => isTrue ⟨vals', checkOps_eq_done.1 h⟩
  | .wait => isFalse fun ⟨_, hp⟩ => by rw [checkOps_eq_done.2 hp] at h; cases h
  | .fail _ => isFalse fun ⟨_, hp⟩ => by rw [checkOps_eq_done.2 hp] at h; cases h

/-! ### The pass over the waiting tracees -/

/-- The values after the pass over some tracees. -/
def passValues (self idx : ℕ) (vals : List ℕ) (cs : List IpcTracee) : List ℕ :=
  cs.foldl (fun vals c =>
    if c.pid ≠ self ∧ WaitsOn idx c then (semCheck c.semopSops vals).values vals else vals) vals

/-- No tracee that has to go on waiting at its turn is allowed its operations by the tracees
completed after it. -/
def SettlesInOrder (self idx : ℕ) : List ℕ → List IpcTracee → Prop
  | _, [] => True
  | vals, c :: cs =>
    if c.pid ≠ self ∧ WaitsOn idx c then
      (semCheck c.semopSops vals = .wait →
        ¬ Satisfiable c.semopSops (passValues self idx vals cs)) ∧
      SettlesInOrder self idx ((semCheck c.semopSops vals).values vals) cs
    else SettlesInOrder self idx vals cs

theorem wakePass_fst (self idx : ℕ) (vals : List ℕ) (cs : List IpcTracee) :
    (wakePass self idx vals cs).1 = passValues self idx vals cs := by
  induction cs generalizing vals with
  | nil => rfl
  | cons c cs ih =>
    rw [wakePass, passValues, List.foldl_cons]
    by_cases hc : c.pid ≠ self ∧ WaitsOn idx c
    · rw [if_pos hc, if_pos hc]
      cases h : semCheck c.semopSops vals with
      | done vals' => exact ih vals'
      | wait => exact ih vals
      | fail e => exact ih vals
    · rw [if_neg hc, if_neg hc]
      exact ih vals

theorem length_passValues (self idx : ℕ) (vals : List ℕ) (cs : List IpcTracee) :
    (passValues self idx vals cs).length = vals.length := by
  induction cs generalizing vals with
  | nil => rfl
  | cons c cs ih =>
    rw [passValues, List.foldl_cons, ← passValues, ih]
    split
    · exact length_values_semCheck _ _
    · rfl

/-- What becomes of one tracee in the pass. -/
theorem mem_wakePass {cs : List IpcTracee} {d : IpcTracee} (h : d ∈ (wakePass self idx vals cs).2) :
    d ∈ cs ∨ ∃ c ∈ cs, ∃ status, c.pid ≠ self ∧ WaitsOn idx c ∧
      d = wakeTracee status { c with semopSops := [] } := by
  induction cs generalizing vals with
  | nil => exact .inl h
  | cons c cs ih =>
    have rest {v : List ℕ} (hd : d ∈ (wakePass self idx v cs).2) :
        d ∈ c :: cs ∨ ∃ c' ∈ c :: cs, ∃ status, c'.pid ≠ self ∧ WaitsOn idx c' ∧
          d = wakeTracee status { c' with semopSops := [] } := by
      rcases ih hd with hd | ⟨c', hc', status, hself, hw, hd⟩
      · exact .inl (List.mem_cons_of_mem c hd)
      · exact .inr ⟨c', List.mem_cons_of_mem c hc', status, hself, hw, hd⟩
    rw [wakePass] at h
    by_cases hc : c.pid ≠ self ∧ WaitsOn idx c
    · rw [if_pos hc] at h
      have woken {status : ℤ} (hd : d = wakeTracee status { c with semopSops := [] }) :
          d ∈ c :: cs ∨ ∃ c' ∈ c :: cs, ∃ status, c'.pid ≠ self ∧ WaitsOn idx c' ∧
            d = wakeTracee status { c' with semopSops := [] } :=
        .inr ⟨c, List.mem_cons_self, status, hc.1, hc.2, hd⟩
      cases hcheck : semCheck c.semopSops vals with
      | done vals' =>
        rw [hcheck] at h
        rcases List.mem_cons.1 h with hd | hd
        · exact woken hd
        · exact rest hd
      | wait =>
        rw [hcheck] at h
        rcases List.mem_cons.1 h with rfl | hd
        · exact .inl List.mem_cons_self
        · exact rest hd
      | fail e =>
        rw [hcheck] at h
        rcases List.mem_cons.1 h with hd | hd
        · exact woken hd
        · exact rest hd
    · rw [if_neg hc] at h
      rcases List.mem_cons.1 h with rfl | hd
      · exact .inl List.mem_cons_self
      · exact rest hd

theorem map_pid_wakePass (self idx : ℕ) (vals : List ℕ) (cs : List IpcTracee) :
    (wakePass self idx vals cs).2.map (·.pid) = cs.map (·.pid) := by
  induction cs generalizing vals with
  | nil => rfl
  | cons c cs ih =>
    rw [wakePass]
    by_cases hc : c.pid ≠ self ∧ WaitsOn idx c
    · rw [if_pos hc]
      cases h : semCheck c.semopSops vals <;> simp [ih]
    · rw [if_neg hc]
      simp [ih]

/-- After the pass no other tracee waits for operations that the values allow exactly when
the pass settles in order. -/
theorem wakePass_settled (self idx : ℕ) (vals : List ℕ) (cs : List IpcTracee) :
    (∀ c ∈ (wakePass self idx vals cs).2, c.pid ≠ self ∧ WaitsOn idx c →
      ¬ Satisfiable c.semopSops (passValues self idx vals cs)) ↔
      SettlesInOrder self idx vals cs := by
  induction cs generalizing vals with
  | nil => simp [wakePass, SettlesInOrder]
  | cons c cs ih =>
    rw [wakePass, SettlesInOrder, passValues, List.foldl_cons, ← passValues]
    by_cases hc : c.pid ≠ self ∧ WaitsOn idx c
    · rw [if_pos hc, if_pos hc, if_pos hc]
      have hwoken (status : ℤ) :
          ¬ WaitsOn idx (wakeTracee status { c with semopSops := [] }) := by
        rintro ⟨h, -⟩
        cases h
      cases h : semCheck c.semopSops vals with
      | done vals' =>
        rw [List.forall_mem_cons, ih]
        simp [hwoken, CheckResult.values]
      | wait =>
        rw [List.forall_mem_cons, CheckResult.values, ih]
        simp [hc]
      | fail e =>
        rw [List.forall_mem_cons, ih]
        simp [hwoken, CheckResult.values]
    · rw [if_neg hc, if_neg hc, if_neg hc, List.forall_mem_cons, ih]
      simp [hc]

/-! ### What one call changes -/

/-- `semget` leaves the sets as they are, or puts one of zeros into an unused slot. -/
theorem semget_objects (objects : List SysVIpcSemaphore) (a : SemgetArgs) :
    (semget objects a).1 = objects ∨
      ∃ o n, (semget objects a).1 = place objects o ∧ o.content = List.replicate n 0 ∧
        n ≤ SYSVIPC_MAX_NSEMS := by
  rw [semget]
  by_cases hn : a.nsems ≤ 0 ∨ (SYSVIPC_MAX_NSEMS : ℤ) < a.nsems
  · rw [if_pos hn]
    exact .inl rfl
  · rw [if_neg hn]
    have hlen : a.nsems.toNat ≤ SYSVIPC_MAX_NSEMS := by omega
    split
    · split
      · exact .inl rfl
      · split
        · exact .inl rfl
        · split <;> exact .inl rfl
    · split
      · exact .inl rfl
      · split
        · exact .inl rfl
        · split
          · exact .inl rfl
          · dsimp only
            split
            · exact .inr ⟨_, 0, rfl, rfl, Nat.zero_le _⟩
            · exact .inr ⟨_, _, rfl, rfl, hlen⟩

/-- A `SETVAL` goes through: the set, and its values afterwards. -/
def SetvalWrites (objects : List SysVIpcSemaphore) (a : SemctlArgs) (idx : ℕ)
    (vals : List ℕ) : Prop :=
  lookupIpcObject objects a.semid = some idx ∧
    a.cmd &&& ~~~SYSVIPC_IPC_64 = SYSVIPC_SETVAL ∧
    ∃ o, objects[idx]? = some o ∧ 0 ≤ a.semNum ∧ a.semNum < o.content.length ∧
      a.arg.toNat ≤ SYSVIPC_MAX_SEMVAL ∧ vals = o.content.set a.semNum.toNat a.arg.toNat

/-- What `semctl` changes: nothing, the values of a set, or the set is removed. -/
theorem semctl_cases (w : SemWorld) (a : SemctlArgs) :
    ((semctl w a).1 = w ∧ ∀ idx vals, ¬ SetvalWrites w.semaphores a idx vals) ∨
    (∃ idx vals, SetvalWrites w.semaphores a idx vals ∧
      (semctl w a).1 = { w with semaphores := setValues w.semaphores idx vals }) ∨
    (∃ idx, lookupIpcObject w.semaphores a.semid = some idx ∧
      (∀ idx vals, ¬ SetvalWrites w.semaphores a idx vals) ∧
      (semctl w a).1 =
        { semaphores := w.semaphores.modify idx (IpcObject.removed [])
          tracees := wakeRemoved .waitSemop idx w.tracees }) := by
  cases hl : lookupIpcObject w.semaphores a.semid with
  | none =>
    refine .inl ⟨by simp only [semctl, hl], ?_⟩
    rintro idx vals ⟨h, -⟩
    rw [hl] at h
    cases h
  | some idx =>
    obtain ⟨o, ho, -⟩ := lookupIpcObject_eq_some hl
    simp only [semctl, hl, ho]
    have other (hcmd : a.cmd &&& ~~~SYSVIPC_IPC_64 ≠ SYSVIPC_SETVAL) :
        ∀ idx vals, ¬ SetvalWrites w.semaphores a idx vals :=
      fun _ _ h => hcmd h.2.1
    by_cases hget : a.cmd &&& ~~~SYSVIPC_IPC_64 = SYSVIPC_GETVAL
    · rw [if_pos hget]
      refine .inl ⟨?_, other (by rw [hget]; decide)⟩
      split <;> rfl
    · rw [if_neg hget]
      by_cases hset : a.cmd &&& ~~~SYSVIPC_IPC_64 = SYSVIPC_SETVAL
      · rw [if_pos hset]
        by_cases hnum : a.semNum < 0 ∨ (o.content.length : ℤ) ≤ a.semNum
        · rw [if_pos hnum]
          refine .inl ⟨rfl, ?_⟩
          rintro idx' vals ⟨hl', -, o', ho', hlow, hhigh, -⟩
          rw [hl, Option.some.injEq] at hl'
          rw [← hl', ho, Option.some.injEq] at ho'
          rw [← ho'] at hhigh
          omega
        · rw [if_neg hnum]
          by_cases harg : SYSVIPC_MAX_SEMVAL < a.arg.toNat
          · rw [if_pos harg]
            refine .inl ⟨rfl, ?_⟩
            rintro idx' vals ⟨-, -, o', -, -, -, hmax, -⟩
            omega
          · rw [if_neg harg]
            refine .inr (.inl ⟨idx, _, ⟨hl, hset, o, ho, ?_, ?_, ?_, rfl⟩, rfl⟩) <;> omega
      · rw [if_neg hset]
        split
        · exact .inl ⟨rfl, other hset⟩
        · split
          · exact .inr (.inr ⟨idx, rfl, other hset, rfl⟩)
          · exact .inl ⟨rfl, other hset⟩

theorem semopTarget_eq_ok {a : SemopArgs} (h : semopTarget objects a = .ok (idx, vals)) :
    lookupIpcObject objects a.semid = some idx ∧
      ∃ o, objects[idx]? = some o ∧ o.content = vals := by
  rw [semopTarget] at h
  cases hl : lookupIpcObject objects a.semid with
  | none => rw [hl] at h; cases h
  | some i =>
    obtain ⟨o, ho, -⟩ := lookupIpcObject_eq_some hl
    rw [hl] at h
    dsimp only at h
    split at h
    · cases h
    · split at h
      · cases h
      · split at h
        · cases h
        · rw [ho] at h
          dsimp only at h
          split at h
          · cases h
          · rw [Except.ok.injEq, Prod.mk.injEq] at h
            exact ⟨by rw [h.1], o, h.1 ▸ ho, h.2⟩

/-! ### The invariant of a namespace -/

/-- What holds of the tracees and the sets between two events. -/
structure SemWorld.Inv (w : SemWorld) : Prop where
  nodup : (w.tracees.map (·.pid)).Nodup
  unchained : ∀ c ∈ w.tracees, c.chainState = .notChained
  /-- A tracee that waits for a set is inside its `ppoll`, and the set lives. -/
  inside : ∀ c ∈ w.tracees, c.waitReason = .waitSemop →
    (c.waitState = .enteredPpoll ∨ c.waitState = .restartedIntoPpoll) ∧
      ValidAt w.semaphores c.waitingObjectIndex
  small : ∀ o ∈ w.semaphores, o.content.length ≤ SYSVIPC_MAX_NSEMS

/-- The tracee does not wait for operations that the values of its set allow. -/
def Patient (objects : List SysVIpcSemaphore) (c : IpcTracee) : Prop :=
  c.waitReason = .waitSemop →
    ∀ o ∈ objects[c.waitingObjectIndex]?, ¬ Satisfiable c.semopSops o.content

instance (objects : List SysVIpcSemaphore) (c : IpcTracee) : Decidable (Patient objects c) :=
  inferInstanceAs (Decidable (_ → ∀ o ∈ objects[c.waitingObjectIndex]?, ¬ _))

/-- No tracee waits for operations that the values of its set allow. -/
def SemWorld.NoLostWakeup (w : SemWorld) : Prop :=
  ∀ c ∈ w.tracees, Patient w.semaphores c

instance (w : SemWorld) : Decidable w.NoLostWakeup :=
  inferInstanceAs (Decidable (∀ c ∈ w.tracees, Patient w.semaphores c))

/-- The condition on an event: the pass of a `semop` settles in order, and a `SETVAL` writes
values that allow no waiting tracee its operations. -/
def LeavesNoneReady (w : SemWorld) : SemEvent → Prop
  | .call pid _ (.semop a) =>
    callerOf pid w.tracees ≠ none →
      ∀ idx vals, semopTarget w.semaphores a = .ok (idx, vals) →
        SettlesInOrder pid idx ((semCheck a.sops vals).values vals) w.tracees
  | .call pid _ (.semctl a) =>
    callerOf pid w.tracees ≠ none →
      ∀ idx vals, SetvalWrites w.semaphores a idx vals →
        ∀ c ∈ w.tracees, WaitsOn idx c → ¬ Satisfiable c.semopSops vals
  | _ => True

/-! ### The invariant is kept -/

/-- The invariant while the handler of a call runs for one tracee. -/
structure SemWorld.Handled (w : SemWorld) (caller : ℕ) : Prop where
  nodup : (w.tracees.map (·.pid)).Nodup
  unchained : ∀ c ∈ w.tracees, c.chainState = .notChained
  valid : ∀ c ∈ w.tracees, c.waitReason = .waitSemop →
    ValidAt w.semaphores c.waitingObjectIndex
  inside : ∀ c ∈ w.tracees, c.pid ≠ caller → c.waitReason = .waitSemop →
    c.waitState = .enteredPpoll ∨ c.waitState = .restartedIntoPpoll
  small : ∀ o ∈ w.semaphores, o.content.length ≤ SYSVIPC_MAX_NSEMS

theorem SemWorld.Inv.handled (h : w.Inv) (self : ℕ) : w.Handled self :=
  ⟨h.nodup, h.unchained, fun c hc hr => (h.inside c hc hr).2,
    fun c hc _ hr => (h.inside c hc hr).1, h.small⟩

theorem syscallTail_inside (fromSigsys : Bool) (status : ℤ) (hchain : c.chainState = .notChained)
    (hr : c.waitReason = .waitSemop) :
    (syscallTail fromSigsys status c).waitState = .enteredPpoll ∨
      (syscallTail fromSigsys status c).waitState = .restartedIntoPpoll := by
  have hne : c.waitReason ≠ .notWaiting := by rw [hr]; decide
  rw [syscallTail, if_neg (not_not.2 hchain), if_pos hne]
  cases fromSigsys
  · exact .inl rfl
  · exact .inr rfl

theorem syscallTail_unchained (fromSigsys : Bool) (status : ℤ)
    (hchain : c.chainState = .notChained) :
    (syscallTail fromSigsys status c).chainState = .notChained := by
  rw [syscallTail, if_neg (not_not.2 hchain)]
  split_ifs <;> exact hchain

/-- The end of the call makes the invariant whole again. -/
theorem SemWorld.Handled.inv (h : w.Handled self) (fromSigsys : Bool) (status : ℤ) :
    SemWorld.Inv
      { w with tracees := updateTracee self (syscallTail fromSigsys status) w.tracees } where
  nodup := by
    rw [map_pid_updateTracee (syscallTail_pid fromSigsys status)]
    exact h.nodup
  unchained := by
    refine forall_mem_updateTracee.2 fun c hc => ?_
    split
    · exact syscallTail_unchained fromSigsys status (h.unchained c hc)
    · exact h.unchained c hc
  inside := by
    refine forall_mem_updateTracee.2 fun c hc => ?_
    split
    · intro hr
      rw [syscallTail_waitReason] at hr
      rw [syscallTail_waitingObjectIndex]
      exact ⟨syscallTail_inside fromSigsys status (h.unchained c hc) hr, h.valid c hc hr⟩
    · rename_i hself
      intro hr
      exact ⟨h.inside c hc hself hr, h.valid c hc hr⟩
  small := h.small

theorem small_setValues (h : ∀ o ∈ objects, o.content.length ≤ SYSVIPC_MAX_NSEMS)
    (hvals : vals.length ≤ SYSVIPC_MAX_NSEMS) :
    ∀ o ∈ setValues objects idx vals, o.content.length ≤ SYSVIPC_MAX_NSEMS :=
  forall_mem_modify h fun _ _ => hvals

theorem validAt_setValues (objects : List SysVIpcSemaphore) (idx : ℕ) (vals : List ℕ) (i : ℕ) :
    ValidAt (setValues objects idx vals) i ↔ ValidAt objects i :=
  validAt_modify (f := fun o => { o with content := vals }) objects idx (fun _ => rfl) i

theorem SemWorld.Handled.semget (h : w.Handled self) (a : SemgetArgs) :
    SemWorld.Handled { w with semaphores := (SysVIpc.semget w.semaphores a).1 } self := by
  rcases semget_objects w.semaphores a with hsame | ⟨o, n, hplace, hcontent, hlen⟩
  · rw [hsame]
    exact h
  · rw [hplace]
    refine ⟨h.nodup, h.unchained, ?_, h.inside, ?_⟩
    · intro c hc hr
      exact (validAt_place _ _ _).2 (.inr (h.valid c hc hr))
    · intro p hp
      rcases mem_place hp with rfl | hp
      · rwa [hcontent, List.length_replicate]
      · exact h.small p hp

theorem SemWorld.Handled.semctl (h : w.Handled self) (a : SemctlArgs) :
    SemWorld.Handled (SysVIpc.semctl w a).1 self := by
  rcases semctl_cases w a with ⟨hsame, -⟩ | ⟨idx, vals, hwrites, heq⟩ | ⟨idx, hl, -, heq⟩
  · rw [hsame]
    exact h
  · rw [heq]
    obtain ⟨-, -, o, ho, -, -, -, hvals⟩ := hwrites
    refine ⟨h.nodup, h.unchained, ?_, h.inside, ?_⟩
    · intro c hc hr
      exact (validAt_setValues _ _ _ _).2 (h.valid c hc hr)
    · refine small_setValues h.small ?_
      rw [hvals, List.length_set]
      exact h.small o (List.mem_of_getElem? ho)
  · rw [heq]
    refine ⟨?_, ?_, ?_, ?_, ?_⟩
    · rw [map_pid_wakeRemoved]
      exact h.nodup
    · intro d hd
      obtain ⟨c, hc, ⟨-, -, rfl⟩ | ⟨-, rfl⟩⟩ := mem_wakeRemoved hd
      · exact h.unchained c hc
      · exact h.unchained d hc
    · intro d hd hr
      obtain ⟨c, hc, ⟨-, -, rfl⟩ | ⟨hw, rfl⟩⟩ := mem_wakeRemoved hd
      · cases hr
      · exact (validAt_modify_removed _ _ _ _).2 ⟨fun hi => hw ⟨hr, hi⟩, h.valid d hc hr⟩
    · intro d hd hself hr
      obtain ⟨c, hc, ⟨-, -, rfl⟩ | ⟨-, rfl⟩⟩ := mem_wakeRemoved hd
      · cases hr
      · exact h.inside d hc hself hr
    · exact forall_mem_modify h.small fun _ _ => Nat.zero_le _

theorem semopOwn_pid (idx : ℕ) (sops : List SysVIpcSembuf) (result : CheckResult)
    (c : IpcTracee) : (semopOwn idx sops result c).pid = c.pid := by
  unfold semopOwn
  split <;> rfl

theorem SemWorld.Handled.semop (h : w.Handled self) (a : SemopArgs) :
    SemWorld.Handled (SysVIpc.semop w self a).1 self := by
  rw [SysVIpc.semop]
  cases ht : semopTarget w.semaphores a with
  | error e => exact h
  | ok target =>
    obtain ⟨idx, vals⟩ := target
    obtain ⟨hl, o, ho, hvals⟩ := semopTarget_eq_ok ht
    have hidx : ValidAt w.semaphores idx := lookupIpcObject_validAt hl
    have hlen : vals.length ≤ SYSVIPC_MAX_NSEMS :=
      hvals ▸ h.small o (List.mem_of_getElem? ho)
    dsimp only
    refine ⟨?_, ?_, ?_, ?_, ?_⟩
    · rw [map_pid_updateTracee (semopOwn_pid _ _ _), map_pid_wakePass]
      exact h.nodup
    · refine forall_mem_updateTracee.2 fun d hd => ?_
      have hd' : d.chainState = .notChained := by
        rcases mem_wakePass hd with hd | ⟨c, hc, _, -, -, rfl⟩
        · exact h.unchained d hd
        · exact h.unchained c hc
      split
      · unfold semopOwn
        split <;> exact hd'
      · exact hd'
    · refine forall_mem_updateTracee.2 fun d hd => ?_
      simp only [validAt_setValues]
      split
      · unfold semopOwn
        split
        · intro _
          exact hidx
        · intro hr
          cases hr
      · intro hr
        rcases mem_wakePass hd with hd | ⟨c, hc, _, -, -, rfl⟩
        · exact h.valid d hd hr
        · cases hr
    · refine forall_mem_updateTracee.2 fun d hd => ?_
      split
      · rename_i hself
        intro hne
        rw [semopOwn_pid] at hne
        exact absurd hself hne
      · intro hself hr
        rcases mem_wakePass hd with hd | ⟨c, hc, _, -, -, rfl⟩
        · exact h.inside d hd hself hr
        · cases hr
    · refine small_setValues h.small ?_
      rw [wakePass_fst, length_passValues, length_values_semCheck]
      exact hlen

theorem SemWorld.Handled.handle (h : w.Handled self) (call : SemCall) :
    SemWorld.Handled (w.handle self call).1 self := by
  cases call with
  | semget a => exact h.semget a
  | semop a => exact h.semop a
  | semctl a => exact h.semctl a

theorem enterStart_inside (h : c.waitState = .enteredPpoll ∨ c.waitState = .restartedIntoPpoll) :
    (enterStart c).waitState = .enteredPpoll := by
  rcases h with h | h <;> simp [enterStart, h]

theorem enterStart_waitingObjectIndex (c : IpcTracee) :
    (enterStart c).waitingObjectIndex = c.waitingObjectIndex := by
  unfold enterStart
  split <;> rfl

theorem enterStart_chainState (c : IpcTracee) : (enterStart c).chainState = c.chainState := by
  unfold enterStart
  split <;> rfl

theorem exitStart_chainState (c : IpcTracee) : (exitStart c).chainState = c.chainState := by
  unfold exitStart
  split <;> rfl

/-- A tracee that goes on waiting after its stop was not stopped by its `ppoll`. -/
theorem exitStart_waiting (h : c.waitState = .enteredPpoll ∨ c.waitState = .restartedIntoPpoll)
    (hr : (exitStart c).waitReason = .waitSemop) : exitStart c = c := by
  rcases h with h | h
  · simp [exitStart, h] at hr
  · simp [exitStart, h]

theorem exitStart_waitReason (hr : (exitStart c).waitReason = .waitSemop) :
    c.waitReason = .waitSemop := by
  unfold exitStart at hr
  split at hr
  · cases hr
  · exact hr
  · exact hr
  · exact hr

theorem SemWorld.Inv.step (h : w.Inv) (e : SemEvent) : (w.step e).Inv := by
  cases e with
  | call pid fromSigsys call =>
    simp only [SemWorld.step]
    split
    · exact h
    · exact ((h.handled pid).handle call).inv fromSigsys _
  | enter pid =>
    refine ⟨?_, ?_, ?_, h.small⟩
    · exact (map_pid_updateTracee enterStart_pid).symm ▸ h.nodup
    · refine forall_mem_updateTracee.2 fun c hc => ?_
      rw [enterStart_chainState, ite_self]
      exact h.unchained c hc
    · refine forall_mem_updateTracee.2 fun c hc => ?_
      split
      · rw [enterStart_waitReason, enterStart_waitingObjectIndex]
        intro hr
        have hin := h.inside c hc hr
        exact ⟨.inl (enterStart_inside hin.1), hin.2⟩
      · exact h.inside c hc
  | leave pid =>
    refine ⟨?_, ?_, ?_, h.small⟩
    · exact (map_pid_updateTracee exitStart_pid).symm ▸ h.nodup
    · refine forall_mem_updateTracee.2 fun c hc => ?_
      rw [exitStart_chainState, ite_self]
      exact h.unchained c hc
    · refine forall_mem_updateTracee.2 fun c hc => ?_
      split
      · intro hr
        have hin := h.inside c hc (exitStart_waitReason hr)
        rw [exitStart_waiting hin.1 hr]
        exact hin
      · exact h.inside c hc
  | clone parent child thread =>
    refine ⟨nodup_cloneTracee h.nodup, ?_, ?_, h.small⟩
    · intro c hc
      rcases mem_cloneTracee hc with hc | ⟨process, rfl⟩
      · exact h.unchained c hc
      · rfl
    · intro c hc hr
      rcases mem_cloneTracee hc with hc | ⟨process, rfl⟩
      · exact h.inside c hc hr
      · cases hr
  | exit pid =>
    exact ⟨nodup_dropTracee h.nodup, fun c hc => h.unchained c (mem_dropTracee hc),
      fun c hc => h.inside c (mem_dropTracee hc), h.small⟩

theorem SemWorld.inv_initial (pid : ℕ) : (SemWorld.initial pid).Inv := by
  refine ⟨by simp [SemWorld.initial], ?_, ?_, by simp [SemWorld.initial]⟩
  · intro c hc
    rw [List.mem_singleton.1 hc]
    rfl
  · intro c hc hr
    rw [List.mem_singleton.1 hc] at hr
    cases hr

/-! ### One event -/

theorem Patient.of_not_waiting (h : c.waitReason ≠ .waitSemop) : Patient objects c :=
  fun hr => absurd hr h

theorem patient_congr {objects' : List SysVIpcSemaphore} {c' : IpcTracee}
    (hr : c'.waitReason = c.waitReason) (hi : c'.waitingObjectIndex = c.waitingObjectIndex)
    (hs : c'.semopSops = c.semopSops) (ho : c.waitReason = .waitSemop →
      objects'[c.waitingObjectIndex]? = objects[c.waitingObjectIndex]?) :
    Patient objects' c' ↔ Patient objects c := by
  rw [Patient, Patient, hr, hi, hs]
  refine imp_congr_right fun hw => ?_
  rw [ho hw]

theorem getElem?_setValues (objects : List SysVIpcSemaphore) (idx : ℕ) (vals : List ℕ) (i : ℕ) :
    (setValues objects idx vals)[i]? =
      if i = idx then objects[i]?.map fun o => { o with content := vals } else objects[i]? := by
  rw [setValues, List.getElem?_modify]
  by_cases hi : idx = i
  · simp [hi]
  · simp [hi, Ne.symm hi]

/-- A tracee that waits for the set whose values are written. -/
theorem patient_setValues (hidx : idx < objects.length) (hc : WaitsOn idx c) :
    Patient (setValues objects idx vals) c ↔ ¬ Satisfiable c.semopSops vals := by
  rw [Patient, getElem?_setValues, if_pos hc.2, hc.2, List.getElem?_eq_getElem hidx]
  simp [hc.1]

/-- A tracee that does not wait for the set whose values are written. -/
theorem patient_setValues_other (hc : ¬ WaitsOn idx c) :
    Patient (setValues objects idx vals) c ↔ Patient objects c := by
  refine patient_congr rfl rfl rfl fun hr => ?_
  rw [getElem?_setValues, if_neg fun hi => hc ⟨hr, hi⟩]

theorem passValues_of_patient {cs : List IpcTracee} (hlen : vals.length ≤ SYSVIPC_MAX_NSEMS)
    (h : ∀ c ∈ cs, WaitsOn idx c → ¬ Satisfiable c.semopSops vals) :
    passValues self idx vals cs = vals := by
  induction cs with
  | nil => rfl
  | cons c cs ih =>
    have hcs := ih fun d hd => h d (List.mem_cons_of_mem c hd)
    rw [passValues, List.foldl_cons, ← passValues]
    by_cases hc : c.pid ≠ self ∧ WaitsOn idx c
    · have hno := h c List.mem_cons_self hc.2
      rw [satisfiable_iff hlen] at hno
      rw [if_pos hc]
      cases hcheck : semCheck c.semopSops vals with
      | done vals' => exact absurd ⟨vals', hcheck⟩ hno
      | wait => exact hcs
      | fail e => exact hcs
    · rw [if_neg hc]
      exact hcs

theorem noLostWakeup_tail (fromSigsys : Bool) (status : ℤ) :
    SemWorld.NoLostWakeup
      { w with tracees := updateTracee self (syscallTail fromSigsys status) w.tracees } ↔
      w.NoLostWakeup := by
  simp only [SemWorld.NoLostWakeup]
  rw [forall_mem_updateTracee]
  refine forall₂_congr fun c _ => ?_
  split
  · exact patient_congr (by simp) (by simp) (by simp) fun _ => rfl
  · exact Iff.rfl

theorem noLostWakeup_semget (h : w.Inv) (hp : w.NoLostWakeup) (a : SemgetArgs) :
    SemWorld.NoLostWakeup { w with semaphores := (semget w.semaphores a).1 } := by
  rcases semget_objects w.semaphores a with hsame | ⟨o, n, hplace, -⟩
  · rw [hsame]
    exact hp
  · rw [hplace]
    intro c hc
    refine (patient_congr rfl rfl rfl fun hr => ?_).2 (hp c hc)
    rw [getElem?_place, if_neg]
    intro hi
    exact not_validAt_claimIndex w.semaphores (hi ▸ (h.inside c hc hr).2)

theorem noLostWakeup_semctl (hp : w.NoLostWakeup) (a : SemctlArgs) :
    (semctl w a).1.NoLostWakeup ↔
      ∀ idx vals, SetvalWrites w.semaphores a idx vals →
        ∀ c ∈ w.tracees, WaitsOn idx c → ¬ Satisfiable c.semopSops vals := by
  rcases semctl_cases w a with ⟨hsame, hno⟩ | ⟨idx, vals, hwrites, heq⟩ | ⟨idx, hl, hno, heq⟩
  · rw [hsame]
    exact iff_of_true hp fun idx vals hw => absurd hw (hno idx vals)
  · have hidx : idx < w.semaphores.length := (lookupIpcObject_validAt hwrites.1).lt
    rw [heq, SemWorld.NoLostWakeup]
    constructor
    · intro hall idx' vals' hwrites' c hc hw
      obtain ⟨hl, -, o, ho, -, -, -, hvals⟩ := hwrites
      obtain ⟨hl', -, o', ho', -, -, -, hvals'⟩ := hwrites'
      have hii : idx' = idx := Option.some.inj (hl'.symm.trans hl)
      have hoo : o' = o := Option.some.inj (ho'.symm.trans (hii ▸ ho))
      rw [hvals', hoo, ← hvals]
      exact (patient_setValues hidx (hii ▸ hw)).1 (hall c hc)
    · intro hall c hc
      by_cases hw : WaitsOn idx c
      · exact (patient_setValues hidx hw).2 (hall idx vals hwrites c hc hw)
      · exact (patient_setValues_other hw).2 (hp c hc)
  · rw [heq]
    refine iff_of_true ?_ fun idx' vals hw => absurd hw (hno idx' vals)
    intro d hd
    obtain ⟨c, hc, ⟨-, -, rfl⟩ | ⟨hw, rfl⟩⟩ := mem_wakeRemoved hd
    · exact .of_not_waiting (by simp)
    · refine (patient_congr rfl rfl rfl fun hr => ?_).2 (hp d hc)
      have hi : ¬ idx = d.waitingObjectIndex := fun hi => hw ⟨hr, hi.symm⟩
      simp [hi]

/-- A `semop` whose operations are tried leaves no tracee behind exactly when its pass settles
in order. -/
theorem noLostWakeup_semop (h : w.Inv) (hp : w.NoLostWakeup) (self : ℕ) (a : SemopArgs) :
    (semop w self a).1.NoLostWakeup ↔
      ∀ idx vals, semopTarget w.semaphores a = .ok (idx, vals) →
        SettlesInOrder self idx ((semCheck a.sops vals).values vals) w.tracees := by
  rw [semop]
  cases ht : semopTarget w.semaphores a with
  | error e =>
    refine iff_of_true hp fun idx vals heq => ?_
    cases heq
  | ok target =>
    obtain ⟨idx, vals⟩ := target
    obtain ⟨hl, o, ho, hvals⟩ := semopTarget_eq_ok ht
    have hidx : idx < w.semaphores.length := (lookupIpcObject_validAt hl).lt
    have hlen : vals.length ≤ SYSVIPC_MAX_NSEMS :=
      hvals ▸ h.small o (List.mem_of_getElem? ho)
    have hwaiting : ∀ c ∈ w.tracees, WaitsOn idx c → ¬ Satisfiable c.semopSops vals := by
      intro c hc hw
      rw [← hvals]
      exact hp c hc hw.1 o (by rw [hw.2, ho]; rfl)
    have hiff : (∀ idx' vals', Except.ok (idx, vals) = (Except.ok (idx', vals') :
        Except ℤ (ℕ × List ℕ)) →
          SettlesInOrder self idx' ((semCheck a.sops vals').values vals') w.tracees) ↔
        SettlesInOrder self idx ((semCheck a.sops vals).values vals) w.tracees := by
      constructor
      · intro hall
        exact hall idx vals rfl
      · intro hsettles idx' vals' heq
        rw [Except.ok.injEq, Prod.mk.injEq] at heq
        rw [← heq.1, ← heq.2]
        exact hsettles
    rw [hiff, ← wakePass_settled]
    dsimp only
    rw [SemWorld.NoLostWakeup, forall_mem_updateTracee]
    dsimp only
    rw [wakePass_fst]
    constructor
    · intro hall c hc hw
      have hpatient := hall c hc
      rw [if_neg hw.1] at hpatient
      exact (patient_setValues hidx hw.2).1 hpatient
    · intro hall c hc
      by_cases hself : c.pid = self
      · rw [if_pos hself]
        unfold semopOwn
        split
        · rename_i hwait
          -- nobody was completed before or after it, so the values are those it was tried on
          have hpass : passValues self idx ((semCheck a.sops vals).values vals) w.tracees =
              vals := by
            rw [hwait]
            exact passValues_of_patient hlen hwaiting
          rw [hpass]
          refine (patient_setValues hidx ⟨rfl, rfl⟩).2 ?_
          rw [satisfiable_iff hlen]
          rintro ⟨vals', hdone⟩
          rw [hwait] at hdone
          cases hdone
        · exact .of_not_waiting (by simp)
      · rw [if_neg hself]
        by_cases hw : WaitsOn idx c
        · exact (patient_setValues hidx hw).2 (hall c hc ⟨hself, hw⟩)
        · refine (patient_setValues_other hw).2 ?_
          rcases mem_wakePass hc with hc | ⟨d, -, _, -, -, rfl⟩
          · exact hp c hc
          · exact .of_not_waiting (by simp)

/-- One event leaves no tracee behind exactly when it meets the condition. -/
theorem noLostWakeup_step (h : w.Inv) (hp : w.NoLostWakeup) (e : SemEvent) :
    (w.step e).NoLostWakeup ↔ LeavesNoneReady w e := by
  cases e with
  | call pid fromSigsys call =>
    simp only [SemWorld.step]
    cases hcaller : callerOf pid w.tracees with
    | none => cases call <;> simp [LeavesNoneReady, hcaller, hp]
    | some t =>
      rw [noLostWakeup_tail]
      cases call with
      | semget a => exact iff_of_true (noLostWakeup_semget h hp a) trivial
      | semop a => simpa [LeavesNoneReady, SemWorld.handle, hcaller] using noLostWakeup_semop h hp pid a
      | semctl a => simpa [LeavesNoneReady, SemWorld.handle, hcaller] using noLostWakeup_semctl hp a
  | enter pid =>
    refine iff_of_true ?_ trivial
    refine forall_mem_updateTracee.2 fun c hc => ?_
    split
    · refine (patient_congr (enterStart_waitReason c) (enterStart_waitingObjectIndex c) ?_
        fun _ => rfl).2 (hp c hc)
      unfold enterStart
      split <;> rfl
    · exact hp c hc
  | leave pid =>
    refine iff_of_true ?_ trivial
    refine forall_mem_updateTracee.2 fun c hc => ?_
    split
    · intro hr
      have hin := h.inside c hc (exitStart_waitReason hr)
      rw [exitStart_waiting hin.1 hr]
      exact hp c hc (exitStart_waitReason hr)
    · exact hp c hc
  | clone parent child thread =>
    refine iff_of_true ?_ trivial
    intro c hc
    rcases mem_cloneTracee hc with hc | ⟨process, rfl⟩
    · exact hp c hc
    · exact .of_not_waiting (by simp [IpcTracee.fresh])
  | exit pid =>
    refine iff_of_true ?_ trivial
    intro c hc
    exact hp c (mem_dropTracee hc)

theorem SemWorld.noLostWakeup_initial (pid : ℕ) : (SemWorld.initial pid).NoLostWakeup := by
  intro c hc
  rw [List.mem_singleton.1 hc]
  exact .of_not_waiting (by simp [IpcTracee.fresh])

/-- In a run of the tracees of a namespace no wake-up is ever lost exactly when every pass of
a `semop` settles in order and no `SETVAL` allows a waiting tracee its operations. -/
theorem noLostWakeup_iff (pid : ℕ) (events : List SemEvent) :
    (∀ w ∈ states SemWorld.step (SemWorld.initial pid) events, w.NoLostWakeup) ↔
      AllSteps SemWorld.step LeavesNoneReady (SemWorld.initial pid) events :=
  states_iff_allSteps (A := fun _ => True) (fun _ e _ h => h.step e)
    (fun _ e _ h hp => noLostWakeup_step h hp e) (SemWorld.inv_initial pid)
    (SemWorld.noLostWakeup_initial pid) fun _ _ => trivial

/-- The root tracee makes a set of one semaphore, its child waits to take it, and the root
then sets the value to 1. -/
theorem setval_wakes_nobody :
    ¬ ∀ (pid : ℕ) (events : List SemEvent),
      ∀ w ∈ states SemWorld.step (SemWorld.initial pid) events, w.NoLostWakeup := by
  intro h
  have hrun := h 1
    [.clone 1 2 false,
      .call 1 false (.semget ⟨0, 1, IPC_CREAT, true, true⟩),
      .leave 1,
      .call 2 false (.semop ⟨1, [⟨0, -1, 0⟩], true, none⟩),
      .call 1 false (.semctl ⟨1, 0, SYSVIPC_SETVAL, 1, 0⟩)]
  revert hrun
  decide +kernel

end NeoProot.SysVIpc
