import NeoProot.Syscall.Exit
import NeoProot.Syscall.SeccompVerdict

/-!
# System calls whose exit changes nothing

With seccomp acceleration a system call only gets an exit stop if a list flags it.
Without it every call gets one.  `translateSyscallExit_eq_self_iff` says for which
calls the translation of that stop leaves everything as it was.

## Main definitions

* `Unflagged` — no list asks for the exit stop of a call.
* `Extension.Idle` — no exit handler of an extension waits.
* `StoppedTracee.Undisturbed` — the condition.
-/

namespace NeoProot
open Seccomp Seccomp.Sysnum

/-- The merged lists register a call without `FILTER_SYSEXIT`, or not at all. -/
def Unflagged (lists : List (List FilteredSysnum)) (s : Sysnum) : Prop :=
  ∀ flags, flagsOf (filteredSysnums lists) s = some flags → flags &&& filterSysexit = 0

/-- No exit handler of the extension waits for the end of the call. -/
def Extension.Idle : Extension → Prop
  | ashmemMemfd state _ => state ≠ .waitStat
  | sysvipc c =>
    ¬ (c.chainState = .shmatSocket ∨ c.chainState = .shmatConnect ∨
      c.chainState = .shmatRecvmsg ∨ c.chainState = .shmatMmap) ∧
    (c.waitState = .notWaiting ∨ c.waitState = .restartedIntoPpoll ∨
      c.waitState = .restartedIntoPpollCanceled)
  | _ => True

namespace ProcFdPaths

/-- The entry of a descriptor that is found first is this one. -/
def Knows (c : ProcFdPaths) (new : ProcFdPath) : Prop :=
  (c.slots.find? fun s => s.pid = new.pid ∧ s.fd = new.fd) =
    some { new with
      path := new.path.take (pathMax - 1)
      hostPath := new.hostPath.take (pathMax - 1) }

theorem remember_eq_self_iff (c : ProcFdPaths) (new : ProcFdPath) :
    c.remember new = c ↔ new.fd < 0 ∨ ¬ IsAbsolute new.path ∨ c.Knows new := by
  simp only [remember, Knows, List.find?_eq_bind_findIdx?_getElem?]
  by_cases hfd : new.fd < 0
  · simp [hfd]
  by_cases habs : IsAbsolute new.path
  · rw [if_neg (by simp [hfd, habs])]
    cases hslot : c.slots.findIdx? fun s => s.pid = new.pid ∧ s.fd = new.fd with
    | none =>
      -- The entry goes into the slot whose turn it is, and the turn moves on.
      refine ⟨fun h => ?_, fun h => by simp [hfd, habs] at h⟩
      have hnext : (c.next + 1) % procFdPathCacheSize = c.next :=
        congrArg ProcFdPaths.next h
      rw [procFdPathCacheSize] at hnext
      omega
    | some slot =>
      have hlt := (List.findIdx?_eq_some_iff_getElem.1 hslot).1
      simp only [hfd, habs, Option.bind_some, not_true, false_or,
        List.getElem?_eq_getElem hlt, Option.some.injEq]
      constructor
      · intro h
        have hset := congrArg ProcFdPaths.slots h
        have hget := congrArg (fun l => l[slot]?) hset
        rw [List.getElem?_set_self hlt, List.getElem?_eq_getElem hlt, Option.some.injEq] at hget
        exact hget.symm
      · intro h
        rw [← h, List.set_getElem_self hlt]
  · simp [habs]

theorem forget_eq_self_iff (c : ProcFdPaths) (pid : ℕ) {fd : ℤ} (hfd : 0 ≤ fd) :
    c.forget pid fd = c ↔ ∀ s ∈ c.slots, ¬ (s.pid = pid ∧ s.fd = fd) := by
  constructor
  · intro h s hs hsfd
    have hmap := (congrArg ProcFdPaths.slots h).trans (List.map_id c.slots).symm
    rw [forget, List.map_inj_left] at hmap
    have hs' := hmap s hs
    rw [if_pos hsfd] at hs'
    have hfd' : -1 = s.fd := congrArg ProcFdPath.fd hs'
    omega
  · intro h
    have hmap : c.slots.map (fun s =>
        if s.pid = pid ∧ s.fd = fd then
          { s with pid := 0, fd := -1, path := [], binding := none, hasAttributes := false }
        else s) = c.slots := by
      exact (List.map_congr_left fun s hs => if_neg (h s hs)).trans (List.map_id' c.slots)
    rw [forget, hmap]

end ProcFdPaths

namespace StoppedTracee

variable {M : Type}

/-! ### The result register -/

@[simp] theorem result_pokeResult (t : StoppedTracee M) (value : UInt64) :
    (t.pokeResult value).result = value := by
  simp [result, peekReg, pokeResult]

@[simp] theorem pokeResult_pokeResult (t : StoppedTracee M) (v v' : UInt64) :
    (t.pokeResult v).pokeResult v' = t.pokeResult v' := by
  simp [pokeResult]

theorem peekReg_pokeResult (t : StoppedTracee M) (value : UInt64) {version : RegVersion}
    (h : version ≠ .current) (reg : Reg) :
    (t.pokeResult value).peekReg version reg = t.peekReg version reg := by
  simp [peekReg, pokeResult, h]

theorem pokeResult_eq_self_iff (t : StoppedTracee M) (value : UInt64) :
    t.pokeResult value = t ↔ t.result = value := by
  constructor
  · intro h
    rw [← h, result_pokeResult]
  · rintro rfl
    simp [pokeResult, result, peekReg]

@[simp] theorem sysnum_pokeResult (sysnums : Sysnums) (t : StoppedTracee M) (value : UInt64) :
    (t.pokeResult value).sysnum sysnums = t.sysnum sysnums := by
  rw [sysnum, peekReg_pokeResult t value (by decide), sysnum]

@[simp] theorem extensions_pokeResult (t : StoppedTracee M) (value : UInt64) :
    (t.pokeResult value).extensions = t.extensions := rfl

/-- A void call kept the result that its entry stored. -/
def KeepsVoidedResult (t : StoppedTracee M) : Prop :=
  t.Voided → t.result = t.peekReg .modified .sysargResult

theorem takeVoidedResult_eq_self_iff (t : StoppedTracee M) :
    t.takeVoidedResult = t ↔ t.KeepsVoidedResult := by
  rw [takeVoidedResult, KeepsVoidedResult]
  split
  · next h => simp [pokeResult_eq_self_iff, h]
  · next h => simp [h]

theorem pokeResult_takeVoidedResult (t : StoppedTracee M) (value : UInt64) :
    t.takeVoidedResult.pokeResult value = t.pokeResult value := by
  rw [takeVoidedResult]
  split
  · rw [pokeResult_pokeResult]
  · rfl

theorem takeVoidedResult_eq (t : StoppedTracee M) :
    t.takeVoidedResult = t.pokeResult t.takeVoidedResult.result := by
  rw [takeVoidedResult]
  split
  · rw [result_pokeResult]
  · exact ((pokeResult_eq_self_iff t _).2 rfl).symm

end StoppedTracee

/-! ### Calls that no list flags -/

theorem and_eq_zero_of_foldl_or {flags : List UInt64} {a mask : UInt64}
    (h : flags.foldl (· ||| ·) a &&& mask = 0) : a &&& mask = 0 ∧ ∀ f ∈ flags, f &&& mask = 0 := by
  induction flags generalizing a with
  | nil => exact ⟨h, by simp⟩
  | cons f flags ih =>
    have hor := ih h
    have hdistrib : (a &&& mask) ||| (f &&& mask) = (a ||| f) &&& mask :=
      UInt64.toBitVec_inj.1 BitVec.and_or_distrib_right.symm
    have hsplit := UInt64.or_eq_zero_iff.1 (hdistrib.trans hor.1)
    refine ⟨hsplit.1, fun g hg => ?_⟩
    rcases List.mem_cons.1 hg with rfl | hg
    · exact hsplit.2
    · exact hor.2 g hg

section

variable {lists : List (List FilteredSysnum)} {s : Sysnum}

theorem Unflagged.not_mem (h : Unflagged lists s) {list : List FilteredSysnum}
    (hlist : list ∈ lists) : ⟨s, filterSysexit⟩ ∉ list := by
  intro hmem
  have hflat : ⟨s, filterSysexit⟩ ∈ lists.flatten := List.mem_flatten.2 ⟨list, hlist, hmem⟩
  have hflags := flagsOf_filteredSysnums lists s
  rw [if_pos (List.mem_map.2 ⟨_, hflat, rfl⟩)] at hflags
  have hzero := (and_eq_zero_of_foldl_or (h _ hflags)).2 filterSysexit
    (List.mem_map.2 ⟨_, List.mem_filter.2 ⟨hflat, by simp⟩, rfl⟩)
  exact absurd hzero (by decide)

variable {android hostBlocksAfNetlink : Bool} {extensions : List Extension}

theorem Unflagged.not_mem_proot
    (h : Unflagged (filterLists android hostBlocksAfNetlink extensions) s) :
    ⟨s, filterSysexit⟩ ∉ prootSysnums := by
  intro hmem
  exact h.not_mem List.mem_cons_self (List.mem_append_left _ hmem)

theorem Unflagged.not_mem_extension
    (h : Unflagged (filterLists android hostBlocksAfNetlink extensions) s) {e : Extension}
    (he : e ∈ extensions) : ⟨s, filterSysexit⟩ ∉ e.filteredSysnums := by
  refine h.not_mem (List.mem_cons_of_mem _ (List.mem_append_right _ ?_))
  exact List.mem_map_of_mem he

end

/-- The place of a system call in `sysnums.list`, the calls of the BPF hot path first. -/
def Seccomp.Sysnum.index : Sysnum → ℕ
  | ioctl => 0
  | fcntl => 1
  | fcntl64 => 2
  | newfstatat => 3
  | fstatat64 => 4
  | statx => 5
  | fstat => 6
  | fstat64 => 7
  | other i => 8 + i.val

theorem Seccomp.Sysnum.index_injective : Function.Injective Sysnum.index := by
  intro s s' h
  cases s <;> cases s' <;> simp only [index] at h <;> first | rfl | omega | skip
  congr 1
  omega

/-- The list flags all these calls. -/
def flagsAll (list : List FilteredSysnum) (sysnums : List Sysnum) : Bool :=
  sysnums.all fun s => list.any fun f => f.value.index == s.index && f.flags == filterSysexit

theorem mem_of_flagsAll {list : List FilteredSysnum} {sysnums : List Sysnum}
    (h : flagsAll list sysnums) {s : Sysnum} (hs : s ∈ sysnums) : ⟨s, filterSysexit⟩ ∈ list := by
  obtain ⟨f, hf, heq⟩ := List.any_eq_true.1 (List.all_eq_true.1 h s hs)
  rw [Bool.and_eq_true, beq_iff_eq, beq_iff_eq] at heq
  rw [← Sysnum.index_injective heq.1, ← heq.2]
  exact hf

/-- **The tracer flags every call of the cases that are not written out.** -/
theorem translatedSysnums_flagged : ∀ s ∈ translatedSysnums, ⟨s, filterSysexit⟩ ∈ prootSysnums := by
  intro s
  apply mem_of_flagsAll
  decide +kernel

/-- **Every extension flags the calls that its exit handler handles.** -/
theorem Extension.exitEndSysnums_flagged (e : Extension) :
    ∀ s ∈ e.exitEndSysnums, ⟨s, filterSysexit⟩ ∈ e.filteredSysnums := by
  intro s
  apply mem_of_flagsAll
  cases e with
  | link2symlink dirent => cases dirent <;> decide +kernel
  | ashmemMemfd state fd => rfl
  | sysvipc config => rfl
  | _ => decide +kernel

/-! ### Notifications -/

section

variable {M : Type} {w : ExitWorld M} {t : StoppedTracee M}

/-- Handlers that leave everything alone. -/
theorem notifyEach_eq_self {handler : Extension → StoppedTracee M → Extension × StoppedTracee M × ℤ}
    {es : List Extension} (h : ∀ e ∈ es, handler e t = (e, t, 0)) :
    notifyEach handler es t = (es, t, 0) := by
  induction es with
  | nil => rfl
  | cons e es ih =>
    have htail := ih fun e' he' => h e' (List.mem_cons_of_mem e he')
    simp [notifyEach, h e List.mem_cons_self, htail]

/-- No extension handles the end of the call. -/
def ExitEndUnheard (w : ExitWorld M) (t : StoppedTracee M) : Prop :=
  ∀ s, t.sysnum w.sysnums = some s → ∀ e ∈ t.extensions, s ∉ e.exitEndSysnums

theorem exitLabelEnd_eq_self (h : ExitEndUnheard w t) : exitLabelEnd w t = t := by
  have hquiet : ∀ e ∈ t.extensions, exitEnd w e t = (e, t, 0) := by
    intro e he
    rw [exitEnd]
    split
    · next s hs => rw [if_neg (h s hs e he)]
    · rfl
  simp [exitLabelEnd, notifyExtensions, notifyEach_eq_self hquiet]

theorem exitStart_of_idle {e : Extension} (he : e.Idle)
    (hexec : t.sysnum w.sysnums ≠ some execve) : exitStart w e t = (e, t, 0) := by
  cases e with
  | kompat => simp [exitStart, hexec]
  | fakeId0 => simp [exitStart, hexec]
  | ashmemMemfd state fd =>
    cases state with
    | waitStat => exact absurd rfl he
    | _ => rfl
  | sysvipc c =>
    obtain ⟨hchain, hwait⟩ := he
    rw [exitStart, sysvipcExitStart, if_neg hchain]
    rcases hwait with hwait | hwait | hwait <;> rw [hwait]
  | _ => rfl

/-- What a handler that waits does to its own state, and what it leaves alone. -/
theorem exitStart_of_not_idle {e : Extension} (he : ¬ e.Idle) :
    (exitStart w e t).1 ≠ e ∧ (exitStart w e t).1.exitEndSysnums = e.exitEndSysnums ∧
      (exitStart w e t).2.1.sysnum w.sysnums = t.sysnum w.sysnums := by
  cases e with
  | ashmemMemfd state fd =>
    cases state with
    | waitStat =>
      rw [exitStart]
      split
      · exact ⟨by simp, rfl, rfl⟩
      · exact ⟨by simp, rfl, rfl⟩
    | _ => exact absurd (by simp [Extension.Idle]) he
  | sysvipc c =>
    rw [exitStart, sysvipcExitStart]
    split
    · next hchain =>
      have hne : ∀ state, state ≠ c.chainState →
          Extension.sysvipc { c with chainState := state } ≠ .sysvipc c := by
        rintro state hstate heq
        exact hstate (congrArg SysVIpcConfig.chainState (Extension.sysvipc.inj heq))
      rw [sysvipcShmatChain]
      split
      · refine ⟨hne _ ?_, rfl, rfl⟩
        rcases hchain with h | h | h | h <;> simp [h]
      · exact ⟨hne _ (by rcases hchain with h | h | h | h <;> simp [h]), rfl, rfl⟩
      · exact ⟨hne _ (by rcases hchain with h | h | h | h <;> simp [h]), rfl, rfl⟩
    · next hchain =>
      have hne : ∀ c' : SysVIpcConfig, c'.waitState ≠ c.waitState →
          Extension.sysvipc c' ≠ .sysvipc c := by
        rintro c' hc' heq
        exact hc' (congrArg SysVIpcConfig.waitState (Extension.sysvipc.inj heq))
      cases hwait : c.waitState with
      | enteredPpoll => exact ⟨hne _ (by simp [hwait]), rfl, rfl⟩
      | signaledPpoll => exact ⟨hne _ (by simp [hwait]), rfl, by simp; rfl⟩
      | enteredGetpid => exact ⟨hne _ (by simp [hwait]), rfl, by simp; rfl⟩
      | _ => exact absurd ⟨hchain, by simp [hwait]⟩ he
  | _ => exact absurd trivial he

/-- Once a handler waited, its extension is another one after the notification. -/
theorem notifyEach_exitStart (es : List Extension) (hexec : t.sysnum w.sysnums ≠ some execve) :
    ((∀ e ∈ es, e.Idle) → notifyEach (exitStart w) es t = (es, t, 0)) ∧
    ((¬ ∀ e ∈ es, e.Idle) → (notifyEach (exitStart w) es t).1 ≠ es) ∧
    (notifyEach (exitStart w) es t).1.map Extension.exitEndSysnums =
      es.map Extension.exitEndSysnums ∧
    (notifyEach (exitStart w) es t).2.1.sysnum w.sysnums = t.sysnum w.sysnums := by
  refine ⟨fun hidle => notifyEach_eq_self fun e he => exitStart_of_idle (hidle e he) hexec, ?_⟩
  induction es generalizing t with
  | nil => simp [notifyEach]
  | cons e es ih =>
    by_cases he : e.Idle
    · obtain ⟨hne, hlabels, hsysnum⟩ := ih hexec
      simp only [notifyEach, exitStart_of_idle he hexec, ne_eq, not_true, if_false]
      refine ⟨fun hnot heq => hne ?_ (List.cons.inj heq).2, by simp [hlabels], hsysnum⟩
      exact fun hall => hnot (List.forall_mem_cons.2 ⟨he, hall⟩)
    · obtain ⟨hne, hlabels, hsysnum⟩ := exitStart_of_not_idle (w := w) (t := t) he
      rw [notifyEach]
      split
      next e' t' status heq =>
      rw [heq] at hne hlabels hsysnum
      split
      · exact ⟨fun _ h => hne (List.cons.inj h).1, by simp [hlabels], hsysnum⟩
      · obtain ⟨-, hlabels', hsysnum'⟩ := ih (t := t') (hsysnum ▸ hexec)
        exact ⟨fun _ h => hne (List.cons.inj h).1, by simp [hlabels, hlabels'],
          hsysnum'.trans hsysnum⟩

end

/-! ### The cases of the switch -/

namespace StoppedTracee

variable {M : Type} (w : ExitWorld M) (s : Sysnum) (t : StoppedTracee M)

/-- What the tracer remembers of two descriptors is already the same. -/
def FdRecordsAgree (sourceFd targetFd : ℤ) : Prop :=
  match t.procFdPaths.recallPath t.pid sourceFd with
  | none =>
    (∀ s ∈ t.procFdPaths.slots, ¬ (s.pid = t.pid ∧ s.fd = targetFd)) ∧
      (t.dirfds.forget t.pid targetFd).copy t.pid sourceFd targetFd = t.dirfds
  | some path =>
    (∀ s, (t.procFdPaths.slots.find? fun s => s.pid = t.pid ∧ s.fd = sourceFd) = some s →
        IsAbsolute path → t.procFdPaths.Knows { s with fd := targetFd, path := path }) ∧
      t.dirfds.copy t.pid sourceFd targetFd = t.dirfds

/-- The `AT_EXECFN` entry that `PR_GET_AUXV` has to replace already holds the value. -/
def AuxvKept : Prop :=
  ∀ address, auxvEntry w t = some address → w.pokeWord t.memory address t.execfnAddr = t.memory

/-- A reply that the tracer waits for is only looked at, and denies nothing. -/
def NetlinkReplyKept : Prop :=
  ∀ base reply flags, netlinkReply w s t = some (base, reply, flags) →
    flags &&& msgPeek ≠ 0 ∧
      ∀ off, netlinkDenial reply t.netlinkAckSeq reply.length 0 = some off →
        w.pokeUint32 t.memory (base + UInt64.ofNat off) 0 = t.memory

/-- The name a descriptor was opened by is already the one the tracer remembers. -/
def OpenedNameKnown : Prop :=
  0 ≤ asInt t.result → ∀ path, openedPath w s t = some path → IsAbsolute path →
    t.procFdPaths.Knows (openedEntry w t (asInt t.result) path)

/-- The two descriptors that a successful call made one know the same name. -/
def DupKnown : Prop :=
  0 ≤ asInt t.result →
    t.FdRecordsAgree (asInt (t.peekReg .original .sysarg1)) (asInt t.result)

/-- The case of the switch leaves the call as it is. -/
def SwitchKept : Prop :=
  match exitCase s with
  | .answered => t.result = 0
  | .prctl =>
    if t.peekReg .original .sysarg1 = prGetAuxv then t.KeepsVoidedResult ∧ t.AuxvKept w
    else t.result = 0
  | .dup => t.KeepsVoidedResult ∧ t.DupKnown
  | .fcntl =>
    t.KeepsVoidedResult ∧
      (asInt (t.peekReg .original .sysarg2) = fDupfd ∨
        asInt (t.peekReg .original .sysarg2) = fDupfdCloexec → t.DupKnown)
  | .opened => t.KeepsVoidedResult ∧ t.OpenedNameKnown w s
  | .ioctl =>
    if t.peekReg .original .sysarg2 = ficlone ∧
        asInt t.takeVoidedResult.result = -EACCES then
      t.result = asWord (-EOPNOTSUPP)
    else t.KeepsVoidedResult
  | .socket =>
    t.KeepsVoidedResult ∧ t.pendingFakeNetlinkSocket = false ∧
      t.pendingRealNetlinkSocket = false
  | .received => t.KeepsVoidedResult ∧ t.NetlinkReplyKept w s
  | .translated | .other => t.KeepsVoidedResult

/-- A stop at which the exit of a call changes nothing. -/
structure Undisturbed : Prop where
  /-- No extension waits for the end of the call. -/
  idle : ∀ e ∈ t.extensions, e.Idle
  /-- An error of the entry is already the result. -/
  failed : t.status < 0 → t.result = asWord t.status
  /-- A call that is not known keeps its result. -/
  unknown : 0 ≤ t.status → t.sysnum w.sysnums = none → t.KeepsVoidedResult
  known : 0 ≤ t.status → ∀ s, t.sysnum w.sysnums = some s → t.SwitchKept w s

variable {w s t}

theorem copyProcFdPath_eq_self_iff {sourceFd targetFd : ℤ} (hfd : 0 ≤ targetFd) :
    t.copyProcFdPath sourceFd targetFd = t ↔ t.FdRecordsAgree sourceFd targetFd := by
  rw [copyProcFdPath, FdRecordsAgree]
  cases t.procFdPaths.recallPath t.pid sourceFd with
  | none =>
    simp only [← t.procFdPaths.forget_eq_self_iff t.pid hfd]
    constructor
    · intro h
      exact ⟨congrArg procFdPaths h, congrArg dirfds h⟩
    · rintro ⟨hpaths, hdirfds⟩
      simp only [hpaths, hdirfds]
  | some path =>
    have hremember : ∀ s : ProcFdPath,
        t.procFdPaths.remember { s with fd := targetFd, path := path } = t.procFdPaths ↔
          (IsAbsolute path → t.procFdPaths.Knows { s with fd := targetFd, path := path }) := by
      intro s
      rw [ProcFdPaths.remember_eq_self_iff, imp_iff_not_or]
      simp [hfd]
    simp only [← hremember]
    cases t.procFdPaths.slots.find? fun s => s.pid = t.pid ∧ s.fd = sourceFd with
    | none =>
      simp only [reduceCtorEq, false_imp_iff, implies_true, true_and]
      exact ⟨congrArg dirfds, fun h => by rw [h]⟩
    | some s =>
      simp only [Option.some.injEq, forall_eq']
      constructor
      · intro h
        exact ⟨congrArg procFdPaths h, congrArg dirfds h⟩
      · rintro ⟨hpaths, hdirfds⟩
        simp only [hpaths, hdirfds]

theorem dupExit_eq_self_iff : dupExit t = t ↔ t.DupKnown := by
  rw [dupExit, DupKnown]
  by_cases hresult : 0 ≤ asInt t.result
  · simp [hresult, copyProcFdPath_eq_self_iff hresult]
  · simp [hresult]

theorem fcntlExit_eq_self_iff :
    fcntlExit t = t ↔
      (asInt (t.peekReg .original .sysarg2) = fDupfd ∨
        asInt (t.peekReg .original .sysarg2) = fDupfdCloexec → t.DupKnown) := by
  rw [← dupExit_eq_self_iff, fcntlExit, dupExit]
  by_cases hcommand : asInt (t.peekReg .original .sysarg2) = fDupfd ∨
      asInt (t.peekReg .original .sysarg2) = fDupfdCloexec
  · simp [hcommand]
  · simp [hcommand]

theorem openExit_eq_self_iff : openExit w s t = t ↔ t.OpenedNameKnown w s := by
  rw [openExit, OpenedNameKnown]
  by_cases hresult : asInt t.result < 0
  · rw [if_pos hresult]
    exact ⟨fun _ h => absurd hresult (not_lt.2 h), fun _ => rfl⟩
  rw [if_neg hresult]
  cases openedPath w s t with
  | none => simp
  | some path =>
    have hremember : t.procFdPaths.remember (openedEntry w t (asInt t.result) path) =
        t.procFdPaths ↔
          (IsAbsolute path → t.procFdPaths.Knows (openedEntry w t (asInt t.result) path)) := by
      rw [ProcFdPaths.remember_eq_self_iff, imp_iff_not_or, openedEntry]
      simp [hresult]
    simp only [Option.some.injEq, forall_eq', not_lt.1 hresult, forall_const, ← hremember]
    by_cases habs : IsAbsolute path
    · rw [if_pos habs]
      exact ⟨congrArg procFdPaths, fun h => by rw [h]⟩
    · simp [habs, hremember]

theorem getAuxvExit_eq_self_iff : getAuxvExit w t = t ↔ t.AuxvKept w := by
  rw [getAuxvExit, AuxvKept]
  cases auxvEntry w t with
  | none => simp
  | some address =>
    simp only [Option.some.injEq, forall_eq']
    exact ⟨congrArg memory, fun h => by rw [h]⟩

theorem socketExit_eq_self_iff :
    socketExit t = t ↔ t.pendingFakeNetlinkSocket = false ∧ t.pendingRealNetlinkSocket = false := by
  constructor
  · intro h
    have hfake := congrArg pendingFakeNetlinkSocket h
    have hreal := congrArg pendingRealNetlinkSocket h
    cases hf : t.pendingFakeNetlinkSocket <;> cases hr : t.pendingRealNetlinkSocket <;>
      simp [socketExit, hf, hr] at hfake hreal ⊢
  · rintro ⟨hfake, hreal⟩
    simp [socketExit, hfake, hreal]

theorem handleNetlinkReplyExit_eq_self_iff :
    handleNetlinkReplyExit w s t = t ↔ t.NetlinkReplyKept w s := by
  rw [handleNetlinkReplyExit, NetlinkReplyKept]
  cases hreply : netlinkReply w s t with
  | none => simp
  | some found =>
    obtain ⟨base, reply, flags⟩ := found
    have hpending : t.netlinkAckPending = true := by
      by_contra hnot
      simp [netlinkReply, hnot] at hreply
    have hkept : (∀ base' reply' flags', some (base, reply, flags) = some (base', reply', flags') →
        flags' &&& msgPeek ≠ 0 ∧
          ∀ off, netlinkDenial reply' t.netlinkAckSeq reply'.length 0 = some off →
            w.pokeUint32 t.memory (base' + UInt64.ofNat off) 0 = t.memory) ↔
        flags &&& msgPeek ≠ 0 ∧
          ∀ off, netlinkDenial reply t.netlinkAckSeq reply.length 0 = some off →
            w.pokeUint32 t.memory (base + UInt64.ofNat off) 0 = t.memory := by
      constructor
      · exact fun h => h base reply flags rfl
      · rintro h _ _ _ ⟨⟩
        exact h
    rw [hkept]
    cases hdenial : netlinkDenial reply t.netlinkAckSeq reply.length 0 with
    | none =>
      simp only [reduceCtorEq, false_imp_iff, implies_true, and_true]
      constructor
      · intro h
        have hack := congrArg netlinkAckPending h
        simpa [hpending] using hack
      · intro h
        simp [h, hdenial]
    | some off =>
      simp only [Option.some.injEq, forall_eq']
      constructor
      · intro h
        have hack := congrArg netlinkAckPending h
        have hmemory := congrArg memory h
        rw [hdenial] at hmemory
        exact ⟨by simpa [hpending] using hack, hmemory⟩
      · rintro ⟨hpeek, hmemory⟩
        simp [hpeek, hmemory, hdenial]

/-! ### What the cases leave alone -/

/-- The registers and the extensions are the same. -/
structure SameStop (t t' : StoppedTracee M) : Prop where
  regs : t'.regs = t.regs
  extensions : t'.extensions = t.extensions

theorem sameStop_copyProcFdPath (t : StoppedTracee M) (sourceFd targetFd : ℤ) :
    SameStop t (t.copyProcFdPath sourceFd targetFd) := by
  rw [copyProcFdPath]
  split
  · exact ⟨rfl, rfl⟩
  · exact ⟨rfl, rfl⟩

theorem sameStop_dupExit (t : StoppedTracee M) : SameStop t (dupExit t) := by
  rw [dupExit]
  split_ifs
  · exact sameStop_copyProcFdPath _ _ _
  · exact ⟨rfl, rfl⟩

theorem sameStop_fcntlExit (t : StoppedTracee M) : SameStop t (fcntlExit t) := by
  simp only [fcntlExit]
  split_ifs
  · exact sameStop_copyProcFdPath _ _ _
  · exact ⟨rfl, rfl⟩

theorem sameStop_openExit (w : ExitWorld M) (s : Sysnum) (t : StoppedTracee M) :
    SameStop t (openExit w s t) := by
  rw [openExit]
  split_ifs
  · exact ⟨rfl, rfl⟩
  split
  · exact ⟨rfl, rfl⟩
  · split_ifs
    · exact ⟨rfl, rfl⟩
    · exact ⟨rfl, rfl⟩

theorem sameStop_getAuxvExit (w : ExitWorld M) (t : StoppedTracee M) :
    SameStop t (getAuxvExit w t) := by
  rw [getAuxvExit]
  split
  · exact ⟨rfl, rfl⟩
  · exact ⟨rfl, rfl⟩

theorem sameStop_socketExit (t : StoppedTracee M) : SameStop t (socketExit t) := by
  cases hf : t.pendingFakeNetlinkSocket <;> cases hr : t.pendingRealNetlinkSocket <;>
    exact ⟨by simp [socketExit, hf, hr], by simp [socketExit, hf, hr]⟩

theorem sameStop_handleNetlinkReplyExit (w : ExitWorld M) (s : Sysnum) (t : StoppedTracee M) :
    SameStop t (handleNetlinkReplyExit w s t) := by
  rw [handleNetlinkReplyExit]
  split
  · exact ⟨rfl, rfl⟩
  · exact ⟨rfl, rfl⟩

/-- A case that keeps the registers gives a stop back unchanged if and only if the
result was the right one and the case has nothing to do. -/
theorem takeVoidedResult_then_eq_self_iff {body : StoppedTracee M → StoppedTracee M}
    (hbody : ∀ t, SameStop t (body t)) :
    body t.takeVoidedResult = t ↔ t.KeepsVoidedResult ∧ body t = t := by
  rw [← takeVoidedResult_eq_self_iff]
  constructor
  · intro h
    have hresult : t.result = t.takeVoidedResult.result := by
      have hregs := (hbody t.takeVoidedResult).regs
      rw [h] at hregs
      rw [result, peekReg, hregs]
      rfl
    have htake : t.takeVoidedResult = t := by
      rw [takeVoidedResult_eq]
      exact (pokeResult_eq_self_iff t _).2 hresult
    rw [htake] at h
    exact ⟨htake, h⟩
  · rintro ⟨htake, h⟩
    rw [htake, h]

@[simp] theorem sysnum_takeVoidedResult (sysnums : Sysnums) (t : StoppedTracee M) :
    t.takeVoidedResult.sysnum sysnums = t.sysnum sysnums := by
  rw [takeVoidedResult_eq, sysnum_pokeResult]

@[simp] theorem extensions_takeVoidedResult (t : StoppedTracee M) :
    t.takeVoidedResult.extensions = t.extensions := by
  rw [takeVoidedResult_eq, extensions_pokeResult]

theorem peekReg_takeVoidedResult (t : StoppedTracee M) {version : RegVersion}
    (h : version ≠ .current) (reg : Reg) :
    t.takeVoidedResult.peekReg version reg = t.peekReg version reg := by
  rw [takeVoidedResult_eq, peekReg_pokeResult t _ h]

/-- The switch keeps the call and the extensions. -/
theorem exitSwitch_frame (hs : exitCase s ≠ .translated) (t : StoppedTracee M) :
    (exitSwitch w s t).1.sysnum w.sysnums = t.sysnum w.sysnums ∧
      (exitSwitch w s t).1.extensions = t.extensions := by
  have hsame : ∀ {t' : StoppedTracee M}, SameStop t t' →
      t'.sysnum w.sysnums = t.sysnum w.sysnums ∧ t'.extensions = t.extensions := by
    intro t' h
    exact ⟨by rw [sysnum, sysnum, peekReg, peekReg, h.regs], h.extensions⟩
  cases hcase : exitCase s with
  | translated => exact absurd hcase hs
  | answered => simp [exitSwitch, hcase]
  | dup =>
    simp only [exitSwitch, hcase]
    exact hsame (sameStop_dupExit _)
  | fcntl =>
    simp only [exitSwitch, hcase]
    exact hsame (sameStop_fcntlExit _)
  | opened =>
    simp only [exitSwitch, hcase]
    exact hsame (sameStop_openExit _ _ _)
  | prctl =>
    simp only [exitSwitch, hcase]
    split_ifs
    · exact hsame (sameStop_getAuxvExit _ _)
    · exact ⟨rfl, rfl⟩
  | ioctl =>
    simp only [exitSwitch, hcase]
    split_ifs
    · exact ⟨sysnum_pokeResult _ _ _, rfl⟩
    · exact ⟨rfl, rfl⟩
  | socket =>
    simp only [exitSwitch, hcase]
    exact hsame (sameStop_socketExit _)
  | received =>
    simp only [exitSwitch, hcase]
    exact hsame (sameStop_handleNetlinkReplyExit _ _ _)
  | other => simp [exitSwitch, hcase]

/-! ### The translation without the notifications -/

/-- The stage between the two notifications. -/
def exitBody (w : ExitWorld M) (t : StoppedTracee M) : StoppedTracee M :=
  if t.status < 0 then t.pokeResult (asWord t.status)
  else
    match t.sysnum w.sysnums with
    | none => t.takeVoidedResult
    | some s =>
      match exitSwitch w s t.takeVoidedResult with
      | (t, some status) => t.pokeResult (asWord status)
      | (t, none) => t

theorem exitBody_frame (hs : ∀ s, t.sysnum w.sysnums = some s → exitCase s ≠ .translated) :
    (exitBody w t).sysnum w.sysnums = t.sysnum w.sysnums ∧
      (exitBody w t).extensions = t.extensions := by
  rw [exitBody]
  split_ifs
  · exact ⟨sysnum_pokeResult _ _ _, rfl⟩
  cases hsysnum : t.sysnum w.sysnums with
  | none => simp [hsysnum]
  | some s =>
    have hframe := exitSwitch_frame (w := w) (hs s hsysnum) t.takeVoidedResult
    rw [sysnum_takeVoidedResult, extensions_takeVoidedResult, hsysnum] at hframe
    simp only
    split
    · next t' status heq => simpa [heq] using hframe
    · next t' heq => simpa [heq] using hframe

/-- The condition on the switch. -/
theorem exitSwitch_eq_self_iff (hs : exitCase s ≠ .translated) (t : StoppedTracee M) :
    (match exitSwitch w s t.takeVoidedResult with
      | (t, some status) => t.pokeResult (asWord status)
      | (t, none) => t) = t ↔
      t.SwitchKept w s := by
  have hanswer : t.takeVoidedResult.pokeResult (asWord 0) = t ↔ t.result = 0 := by
    rw [pokeResult_takeVoidedResult, pokeResult_eq_self_iff]
    rfl
  rw [SwitchKept]
  cases hcase : exitCase s with
  | translated => exact absurd hcase hs
  | answered => simpa only [exitSwitch, hcase] using hanswer
  | dup =>
    simp only [exitSwitch, hcase]
    rw [takeVoidedResult_then_eq_self_iff sameStop_dupExit, dupExit_eq_self_iff]
  | fcntl =>
    simp only [exitSwitch, hcase]
    rw [takeVoidedResult_then_eq_self_iff sameStop_fcntlExit, fcntlExit_eq_self_iff]
  | opened =>
    simp only [exitSwitch, hcase]
    rw [takeVoidedResult_then_eq_self_iff (sameStop_openExit w s), openExit_eq_self_iff]
  | prctl =>
    simp only [exitSwitch, hcase]
    rw [peekReg_takeVoidedResult t (by decide)]
    split_ifs with hauxv
    · rw [takeVoidedResult_then_eq_self_iff (sameStop_getAuxvExit w), getAuxvExit_eq_self_iff]
    · exact hanswer
  | ioctl =>
    simp only [exitSwitch, hcase]
    rw [peekReg_takeVoidedResult t (by decide)]
    split_ifs with hficlone
    · rw [pokeResult_takeVoidedResult, pokeResult_eq_self_iff]
    · exact takeVoidedResult_eq_self_iff t
  | socket =>
    simp only [exitSwitch, hcase]
    rw [takeVoidedResult_then_eq_self_iff sameStop_socketExit, socketExit_eq_self_iff]
  | received =>
    simp only [exitSwitch, hcase]
    rw [takeVoidedResult_then_eq_self_iff (sameStop_handleNetlinkReplyExit w s),
      handleNetlinkReplyExit_eq_self_iff]
  | other =>
    simp only [exitSwitch, hcase]
    exact takeVoidedResult_eq_self_iff t

theorem exitBody_eq_self_iff (hs : ∀ s, t.sysnum w.sysnums = some s → exitCase s ≠ .translated) :
    exitBody w t = t ↔
      (t.status < 0 → t.result = asWord t.status) ∧
      (0 ≤ t.status → t.sysnum w.sysnums = none → t.KeepsVoidedResult) ∧
      (0 ≤ t.status → ∀ s, t.sysnum w.sysnums = some s → t.SwitchKept w s) := by
  rw [exitBody]
  by_cases hstatus : t.status < 0
  · simp [hstatus, pokeResult_eq_self_iff]
  have hstatus' := not_lt.1 hstatus
  rw [if_neg hstatus]
  cases hsysnum : t.sysnum w.sysnums with
  | none => simp [hstatus, hstatus', takeVoidedResult_eq_self_iff]
  | some s => simp [hstatus, hstatus', exitSwitch_eq_self_iff (hs s hsysnum)]

end StoppedTracee

/-! ### The translation -/

section

variable {M : Type} {w : ExitWorld M} {t : StoppedTracee M} {android hostBlocksAfNetlink : Bool}

theorem Unflagged.exitCase_ne {s : Sysnum}
    (h : Unflagged (filterLists android hostBlocksAfNetlink t.extensions) s) :
    exitCase s ≠ .translated := by
  intro hcase
  refine h.not_mem_proot (translatedSysnums_flagged s ?_)
  by_contra hmem
  simp only [exitCase, hmem, if_false] at hcase
  split_ifs at hcase

theorem Unflagged.ne_execve {s : Sysnum}
    (h : Unflagged (filterLists android hostBlocksAfNetlink t.extensions) s) : s ≠ execve := by
  rintro rfl
  exact h.not_mem_proot (translatedSysnums_flagged execve (by decide))

/-- Nobody hears of the end of a call that no list flags. -/
theorem exitEndUnheard_of_unflagged
    (hflags : ∀ s, t.sysnum w.sysnums = some s →
      Unflagged (filterLists android hostBlocksAfNetlink t.extensions) s)
    {t' : StoppedTracee M} (hsysnum : t'.sysnum w.sysnums = t.sysnum w.sysnums)
    (hlabels : t'.extensions.map Extension.exitEndSysnums =
      t.extensions.map Extension.exitEndSysnums) : ExitEndUnheard w t' := by
  intro s hs e he hmem
  rw [hsysnum] at hs
  have hlabel : e.exitEndSysnums ∈ t.extensions.map Extension.exitEndSysnums :=
    hlabels ▸ List.mem_map_of_mem he
  obtain ⟨e', he', heq⟩ := List.mem_map.1 hlabel
  exact (hflags s hs).not_mem_extension he' (e'.exitEndSysnums_flagged s (heq ▸ hmem))

/-- Without a second notification, the first one and the switch are all there is. -/
theorem translateExit_eq_exitBody (hs : ∀ s, t.sysnum w.sysnums = some s → exitCase s ≠ .translated)
    (hunheard : ∀ u : StoppedTracee M, u.sysnum w.sysnums = t.sysnum w.sysnums →
      u.extensions = t.extensions → exitLabelEnd w u = u) : translateExit w t = t.exitBody w := by
  have hframe := StoppedTracee.exitBody_frame hs
  have hbody := hunheard _ hframe.1 hframe.2
  rw [translateExit]
  rw [StoppedTracee.exitBody] at hbody ⊢
  split_ifs at hbody ⊢
  · exact hbody
  cases hsysnum : t.sysnum w.sysnums with
  | none => simpa only [hsysnum] using hbody
  | some s =>
    simp only [hsysnum] at hbody ⊢
    generalize exitSwitch w s t.takeVoidedResult = r at hbody ⊢
    obtain ⟨t', status⟩ := r
    cases status with
    | some status => exact hbody
    | none => exact hbody

theorem translateSyscallExit_eq
    (hflags : ∀ s, t.sysnum w.sysnums = some s →
      Unflagged (filterLists android hostBlocksAfNetlink t.extensions) s) :
    translateSyscallExit w t =
      match notifyExtensions (exitStart w) t with
      | (t, status) =>
        if status < 0 then t.pokeResult (asWord status)
        else if 0 < status then t
        else t.exitBody w := by
  have hexec : t.sysnum w.sysnums ≠ some execve :=
    fun h => (hflags _ h).ne_execve rfl
  obtain ⟨-, -, hlabels, hsysnum⟩ := notifyEach_exitStart (w := w) t.extensions hexec
  rw [translateSyscallExit, notifyExtensions]
  generalize notifyEach (exitStart w) t.extensions t = notified at hlabels hsysnum
  obtain ⟨es, t', status⟩ := notified
  set t'' : StoppedTracee M := { t' with extensions := es }
  have hsysnum' : t''.sysnum w.sysnums = t.sysnum w.sysnums := hsysnum
  have hunheard : ∀ u : StoppedTracee M, u.sysnum w.sysnums = t''.sysnum w.sysnums →
      u.extensions = t''.extensions → exitLabelEnd w u = u := by
    intro u hu hext
    exact exitLabelEnd_eq_self
      (exitEndUnheard_of_unflagged hflags (hu.trans hsysnum') (by rw [hext]; exact hlabels))
  have hcase : ∀ s, t''.sysnum w.sysnums = some s → exitCase s ≠ .translated :=
    fun s hs => (hflags s (hsysnum'.symm.trans hs)).exitCase_ne
  have hfailed := hunheard (t''.pokeResult (asWord status))
    (StoppedTracee.sysnum_pokeResult _ _ _) rfl
  have hrest := translateExit_eq_exitBody hcase hunheard
  change (if status < 0 then exitLabelEnd w (t''.pokeResult (asWord status))
    else if 0 < status then t'' else translateExit w t'') = _
  rw [hfailed, hrest]

/-- **Exits that change nothing.**  For a call that no list flags, the translation of
the exit stop gives the tracee back as it was, result, memory and all, if and only if
the stop is undisturbed. -/
theorem translateSyscallExit_eq_self_iff (w : ExitWorld M) (t : StoppedTracee M)
    (android hostBlocksAfNetlink : Bool)
    (hflags : ∀ s, t.sysnum w.sysnums = some s →
      Unflagged (filterLists android hostBlocksAfNetlink t.extensions) s) :
    translateSyscallExit w t = t ↔ t.Undisturbed w := by
  have hexec : t.sysnum w.sysnums ≠ some execve :=
    fun h => (hflags _ h).ne_execve rfl
  have hcase : ∀ s, t.sysnum w.sysnums = some s → exitCase s ≠ .translated :=
    fun s hs => (hflags s hs).exitCase_ne
  obtain ⟨hidle, hbusy, hlabels, hsysnum⟩ :=
    notifyEach_exitStart (w := w) t.extensions hexec
  rw [translateSyscallExit_eq hflags]
  by_cases hall : ∀ e ∈ t.extensions, e.Idle
  · rw [notifyExtensions, hidle hall]
    change t.exitBody w = t ↔ _
    rw [StoppedTracee.exitBody_eq_self_iff hcase]
    constructor
    · rintro ⟨hfailed, hunknown, hknown⟩
      exact ⟨hall, hfailed, hunknown, hknown⟩
    · rintro ⟨-, hfailed, hunknown, hknown⟩
      exact ⟨hfailed, hunknown, hknown⟩
  · -- The extension that waited is another one now, and stays it.
    refine ⟨fun heq => absurd ?_ (hbusy hall), fun h => absurd h.idle hall⟩
    rw [notifyExtensions] at heq
    generalize notifyEach (exitStart w) t.extensions t = notified at heq hlabels hsysnum ⊢
    obtain ⟨es, t', status⟩ := notified
    set t'' : StoppedTracee M := { t' with extensions := es }
    have hcase' : ∀ s, t''.sysnum w.sysnums = some s → exitCase s ≠ .translated :=
      by
      intro s hs
      have hsysnum' : t''.sysnum w.sysnums = t.sysnum w.sysnums := hsysnum
      exact hcase s (hsysnum'.symm.trans hs)
    have hext := congrArg StoppedTracee.extensions heq
    change (if status < 0 then t''.pokeResult (asWord status)
      else if 0 < status then t'' else t''.exitBody w).extensions = t.extensions at hext
    split_ifs at hext
    · exact hext
    · exact hext
    · exact (StoppedTracee.exitBody_frame hcase').2.symm.trans hext

end

/-- A kernel that knows `prctl` by its number. -/
def prctlWorld : ExitWorld Unit where
  sysnums := List.replicate 167 none ++ [some prctl]
  readData := fun _ _ _ => none
  peekWord := fun _ _ => none
  pokeWord := fun m _ _ => m
  pokeUint32 := fun m _ _ => m
  readPath := fun _ _ => .error .efault
  readlinkProcPidFd := fun _ _ => .error .ebadf
  shmatStage := fun _ t => (.next, t.memory, t.chain)
  msgrcvRetry := fun _ t => (t.memory, 0)
  execveStart := fun e t => (e, t)
  exitEnd := fun e t => (e, t, 0)
  translated := fun _ t => (t, none)

/-- A tracee at the exit of `prctl(PR_GET_DUMPABLE)`, with the result of the kernel. -/
def prctlStop (result : UInt64) : StoppedTracee Unit where
  toTracee := traceeAfter [.insortBinding3 (str "/") (str "/")]
  regs := fun version reg =>
    match version, reg with
    | .current, .sysarg1 => result
    | _, .sysarg1 => 3
    | _, .sysargNum => 167
    | _, _ => 0
  memory := ()
  status := 0
  extensions := []
  chain := []
  execfnAddr := 0
  pendingFakeNetlinkSocket := false
  pendingRealNetlinkSocket := false
  fakeNetlinkFds := []
  netlinkRouteFds := []
  netlinkAckPending := false
  netlinkAckFd := 0
  netlinkAckSeq := 0
  procFdPaths := ⟨[], 0⟩
  dirfds := .init

theorem prctlStop_unflagged (result : UInt64) :
    ∀ s, (prctlStop result).sysnum prctlWorld.sysnums = some s →
      Unflagged (filterLists false false (prctlStop result).extensions) s := by
  intro s hs
  have hprctl : (prctlStop result).sysnum prctlWorld.sysnums = some prctl := rfl
  rw [hprctl, Option.some.injEq] at hs
  subst hs
  have hflags : flagsOf (filteredSysnums (filterLists false false [])) prctl = some 0 := by
    decide +kernel
  intro flags h
  have heq : some 0 = some flags := hflags.symm.trans h
  rw [← Option.some.inj heq]
  rfl

theorem translateSyscallExit_prctlStop :
    translateSyscallExit prctlWorld (prctlStop 0) = prctlStop 0 := by
  refine (translateSyscallExit_eq_self_iff prctlWorld (prctlStop 0) false false
    (prctlStop_unflagged 0)).2 ⟨by simp [prctlStop], fun h => absurd h (by decide), ?_, ?_⟩
  · exact fun _ h => absurd h (by decide)
  · intro _ s hs
    have hprctl : some prctl = some s := hs
    rw [← Option.some.inj hprctl]
    exact (rfl : (prctlStop 0).result = 0)

/-- `prctl(PR_GET_DUMPABLE)` returns 1; at an exit stop that becomes 0. -/
theorem exists_exit_overwrites_result :
    ¬ ∀ (w : ExitWorld Unit) (t : StoppedTracee Unit) (android hostBlocksAfNetlink : Bool),
      (∀ s, t.sysnum w.sysnums = some s →
        Unflagged (filterLists android hostBlocksAfNetlink t.extensions) s) →
      translateSyscallExit w t = t := by
  intro hall
  have heq := hall prctlWorld (prctlStop 1) false false (prctlStop_unflagged 1)
  have hresult : (translateSyscallExit prctlWorld (prctlStop 1)).result = 0 := rfl
  rw [heq] at hresult
  exact absurd hresult (by decide)

end NeoProot
