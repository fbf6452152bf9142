import NeoProot.Syscall.Chain
import Mathlib.Data.Fin.VecNotation
import Mathlib.Data.List.FinRange

/-!
# Chained calls run once, and in order

What a run registers is what it executes: at each moment the calls that have been executed and
those that wait are the calls that were registered, in their order.  `chain_of_run` says so of
every run whose handlers do not force a result without a chain, do not restart a call behind which
none waits, and leave alone a call that has no exit stop.

## Main definitions

* `Sound` — the condition on a system call of a run.
* `Ended` — what holds when the guest is back in its program.
* `Handled` — what the handlers of a stop do.
-/

namespace NeoProot.Chain

open Run

variable {Sysnum : Type*}
variable {p : Process}

namespace Request

/-- The request puts a call in the queue. -/
def registers : Request Sysnum → Bool
  | .register _ | .restartOriginal | .restartCurrent => true
  | _ => false

/-- The request restarts the current call. -/
def restarts : Request Sysnum → Bool
  | .restartCurrent => true
  | _ => false

/-- The request forces a result. -/
def forces : Request Sysnum → Bool
  | .force _ => true
  | _ => false

/-- The request only writes a register. -/
def pokes : Request Sysnum → Bool
  | .poke _ _ => true
  | _ => false

end Request

/-- The registers after the pokes of some handlers. -/
def poked (reg : Reg → UInt64) : List (Request Sysnum) → Reg → UInt64
  | [] => reg
  | .poke r value :: rs => poked (Function.update reg r value) rs
  | _ :: rs => poked reg rs

/-- The calls that wait. -/
def Tracee.queue (t : Tracee Sysnum) : List (ChainedSyscall Sysnum) := t.syscalls.getD []

/-- The condition on an entry stop of the guest's own call: its handlers restart it once at most,
and they do nothing when it has no exit stop. -/
structure State.EntrySound (s : State Sysnum) (e : Entry Sysnum) : Prop where
  restarts : s.tracee.syscalls = none → e.requests.countP Request.restarts ≤ 1
  cont : s.tracee.syscalls = none → e.restartHow = .cont →
    e.error = none ∧ e.requests.all Request.pokes ∧
      ∀ r, r ≠ sysargResult → r ≠ .stackPointer →
        poked s.process.regs.reg e.requests r = s.process.regs.reg r

/-- The condition on an exit stop whose handlers run: they restart a call once at most, and only
in front of another one, and no result is forced unless there is a chain. -/
structure State.ExitSound (s : State Sysnum) (requests : List (Request Sysnum)) : Prop where
  restarts : s.tracee.workaround ≠ .processFaultyCall →
    requests.countP Request.restarts ≤ 1 ∧
      (requests.countP Request.restarts = 1 →
        2 ≤ s.tracee.queue.length + requests.countP Request.registers)
  forced : s.tracee.syscalls = none → requests.countP Request.registers = 0 →
    s.tracee.forceFinalResult = false ∧ requests.countP Request.forces = 0

/-- The condition on a system call. -/
def State.Sound (abi : Sysnums Sysnum) (s : State Sysnum) (r : Round Sysnum) : Prop :=
  s.stage = .atEntry → s.EntrySound r.entry ∧
    ((s.enterStop abi r.entry).stage = .inKernel → (s.enterStop abi r.entry).ExitSound r.exit)

/-- The guest is back: nothing is left of the chain, all that was registered has been executed
behind the guest's own call, and the registers are those of the guest but for the result. -/
structure State.Ended (abi : Sysnums Sysnum) (regs : Regs) (s : State Sysnum) : Prop where
  freed : s.tracee.syscalls = none
  noForce : s.tracee.forceFinalResult = false
  noResult : s.tracee.finalResult = 0
  noWorkaround : s.tracee.workaround = .inactive
  executed : s.tracee.history.executed.tail =
    s.tracee.history.registered.map (ChainedSyscall.kernelCall abi)
  result : s.process.regs.reg sysargResult = s.tracee.history.forced.getD s.tracee.history.last
  others : ∀ r, r ≠ sysargResult → s.process.regs.reg r = regs.reg r
  instrPointer : s.process.regs.instrPointer = regs.instrPointer

/-! ### Handlers -/

/-- The record agrees with the queue and the flags, `done` being the calls taken so far. -/
structure Tracee.Books (t : Tracee Sysnum) (done : List (ChainedSyscall Sysnum)) : Prop where
  registered : t.history.registered = done ++ t.queue
  forced : t.history.forced = if t.forceFinalResult then some t.finalResult else none
  unforced : t.forceFinalResult = false → t.finalResult = 0

/-- What the handlers of a stop do. -/
structure Handled (t t' : Tracee Sysnum) (requests : List (Request Sysnum)) : Prop where
  original : t'.original = t.original
  restore : t'.restoreOriginalRegs = t.restoreOriginalRegs
  instrPointer : t'.current.instrPointer = t.current.instrPointer
  executed : t'.history.executed = t.history.executed
  last : t'.history.last = t.history.last
  unchanged : t'.regsWereChanged = false → t.regsWereChanged = false ∧ t'.current = t.current
  regs : t'.current.reg = poked t.current.reg requests
  books : ∀ done, t.Books done → t'.Books done
  length : t'.queue.length = t.queue.length + requests.countP Request.registers
  none : t'.syscalls = none ↔ t.syscalls = none ∧ requests.countP Request.registers = 0
  workaround : t'.workaround =
    if requests.countP Request.restarts = 0 then t.workaround else .processFaultyCall
  force : requests.countP Request.forces = 0 →
    t'.forceFinalResult = t.forceFinalResult ∧ t'.finalResult = t.finalResult

variable {abi : Sysnums Sysnum} {t t' : Tracee Sysnum} {done : List (ChainedSyscall Sysnum)}

theorem insertIdx_length {α : Type*} (xs ys : List α) (y : α) :
    (xs ++ ys).insertIdx xs.length y = xs ++ y :: ys := by
  induction xs with
  | nil => rfl
  | cons x xs ih => rw [List.cons_append, List.length_cons, List.insertIdx_succ_cons, ih]; rfl

theorem pokeReg_reg (t : Tracee Sysnum) (r : Reg) (value : UInt64) :
    (t.pokeReg r value).current.reg = Function.update t.current.reg r value := by
  rw [Tracee.pokeReg]
  split
  · rename_i hsame
    rw [← hsame, Function.update_eq_self]
  · rfl

/-- A poke changes one register only. -/
theorem pokeReg_frame (t : Tracee Sysnum) (r : Reg) (value : UInt64) :
    ∃ current changed, t.pokeReg r value =
        { t with current := current, regsWereChanged := changed } ∧
      current.instrPointer = t.current.instrPointer ∧
      (changed = false → t.regsWereChanged = false ∧ current = t.current) := by
  rw [Tracee.pokeReg]
  split
  · exact ⟨t.current, t.regsWereChanged, rfl, rfl, fun h => ⟨h, rfl⟩⟩
  · exact ⟨_, true, rfl, rfl, fun h => nomatch h⟩

/-- A call is put in the queue. -/
theorem register_handled (t : Tracee Sysnum) (call : ChainedSyscall Sysnum) {q : Request Sysnum}
    (hregisters : q.registers) (hrestarts : q.restarts = false)
    (hpoked : ∀ reg, poked reg [q] = reg) : Handled t (t.registerChainedSyscall call) [q] where
  original := rfl
  restore := rfl
  instrPointer := rfl
  executed := rfl
  last := rfl
  unchanged h := ⟨h, rfl⟩
  regs := (hpoked _).symm
  books done h := by
    refine ⟨?_, h.forced, h.unforced⟩
    change t.history.registered ++ [call] = done ++ (t.queue ++ [call])
    rw [h.registered, List.append_assoc]
  length := by
    rw [List.countP_singleton, if_pos hregisters]
    exact List.length_append
  none := by
    rw [List.countP_singleton, if_pos hregisters]
    exact ⟨(fun h => nomatch h), fun h => absurd h.2 Nat.one_ne_zero⟩
  workaround := by
    rw [List.countP_singleton, hrestarts]
    rfl
  force _ := ⟨rfl, rfl⟩

/-- The current call is put in front of those that wait. -/
theorem restartCurrent_handled (h : t.restartCurrentSyscallAsChained abi = some t') :
    Handled t t' [.restartCurrent] := by
  rw [Tracee.restartCurrentSyscallAsChained] at h
  split at h
  · cases h
  cases h
  refine ⟨rfl, rfl, rfl, rfl, rfl, fun h => ⟨h, rfl⟩, rfl, ?_, rfl, ?_, rfl, fun _ => ⟨rfl, rfl⟩⟩
  · intro done hbooks
    refine ⟨?_, hbooks.forced, hbooks.unforced⟩
    change t.history.registered.insertIdx (t.history.registered.length - t.queue.length) _ =
      done ++ _ :: t.queue
    rw [hbooks.registered, List.length_append, Nat.add_sub_cancel, insertIdx_length]
  · exact ⟨(fun h => nomatch h), fun h => absurd h.2 Nat.one_ne_zero⟩

theorem pokeReg_handled (t : Tracee Sysnum) (r : Reg) (value : UInt64) :
    Handled t (t.pokeReg r value) [.poke r value] := by
  have hregs := pokeReg_reg t r value
  obtain ⟨current, changed, heq, hpointer, hsame⟩ := pokeReg_frame t r value
  rw [heq] at hregs ⊢
  exact ⟨rfl, rfl, hpointer, rfl, rfl, hsame, hregs,
    fun _ h => ⟨h.registered, h.forced, h.unforced⟩, rfl, ⟨fun h => ⟨h, rfl⟩, fun h => h.1⟩, rfl,
    fun _ => ⟨rfl, rfl⟩⟩

theorem force_handled (t : Tracee Sysnum) (result : UInt64) :
    Handled t (t.forceChainFinalResult result) [.force result] :=
  ⟨rfl, rfl, rfl, rfl, rfl, fun h => ⟨h, rfl⟩, rfl,
    fun _ h => ⟨h.registered, rfl, fun h => nomatch h⟩, rfl, ⟨fun h => ⟨h, rfl⟩, fun h => h.1⟩,
    rfl, fun h => nomatch h⟩

/-- One request. -/
theorem request_handled {q : Request Sysnum} (h : t.request abi q = some t') :
    Handled t t' [q] := by
  cases q with
  | poke r value =>
    cases h
    exact pokeReg_handled t r value
  | register call =>
    cases h
    exact register_handled t call rfl rfl fun _ => rfl
  | restartOriginal =>
    cases h
    exact register_handled t _ rfl rfl fun _ => rfl
  | restartCurrent => exact restartCurrent_handled h
  | force result =>
    cases h
    exact force_handled t result

theorem poked_append (reg : Reg → UInt64) (rs rs' : List (Request Sysnum)) :
    poked reg (rs ++ rs') = poked (poked reg rs) rs' := by
  induction rs generalizing reg with
  | nil => rfl
  | cons q rs ih => cases q <;> exact ih _

theorem poked_snoc (reg : Reg → UInt64) (rs : List (Request Sysnum)) (r : Reg) (value : UInt64) :
    poked reg (rs ++ [.poke r value]) = Function.update (poked reg rs) r value := by
  rw [poked_append]
  rfl

theorem Handled.refl (t : Tracee Sysnum) : Handled t t ([] : List (Request Sysnum)) :=
  ⟨rfl, rfl, rfl, rfl, rfl, fun h => ⟨h, rfl⟩, rfl, fun _ h => h, rfl,
    ⟨fun h => ⟨h, rfl⟩, fun h => h.1⟩, rfl, fun _ => ⟨rfl, rfl⟩⟩

theorem Handled.append {t'' : Tracee Sysnum} {rs rs' : List (Request Sysnum)}
    (h : Handled t t' rs) (h' : Handled t' t'' rs') : Handled t t'' (rs ++ rs') where
  original := h'.original.trans h.original
  restore := h'.restore.trans h.restore
  instrPointer := h'.instrPointer.trans h.instrPointer
  executed := h'.executed.trans h.executed
  last := h'.last.trans h.last
  unchanged hsame := by
    obtain ⟨hsame', hcurrent'⟩ := h'.unchanged hsame
    obtain ⟨hsame'', hcurrent⟩ := h.unchanged hsame'
    exact ⟨hsame'', hcurrent'.trans hcurrent⟩
  regs := by rw [h'.regs, h.regs, poked_append]
  books done hbooks := h'.books done (h.books done hbooks)
  length := by
    rw [h'.length, h.length, List.countP_append]
    omega
  none := by
    rw [h'.none, h.none, List.countP_append, and_assoc]
    apply and_congr_right
    intro _
    omega
  workaround := by
    rw [h'.workaround, h.workaround, List.countP_append]
    split
    · rename_i hzero
      rw [hzero, Nat.add_zero]
    · rw [if_neg]
      omega
  force hzero := by
    rw [List.countP_append] at hzero
    obtain ⟨hforce', hfinal'⟩ := h'.force (by omega)
    obtain ⟨hforce, hfinal⟩ := h.force (by omega)
    exact ⟨hforce'.trans hforce, hfinal'.trans hfinal⟩

/-- The handlers of a stop. -/
theorem handle_handled {requests : List (Request Sysnum)} (h : t.handle abi requests = some t') :
    Handled t t' requests := by
  induction requests generalizing t with
  | nil =>
    cases h
    exact Handled.refl _
  | cons q rs ih =>
    rw [Tracee.handle, Option.bind_eq_some_iff] at h
    obtain ⟨t₁, hq, hrs⟩ := h
    exact (request_handled hq).append (ih hrs)

/-- Handlers that restart a call once at most, and not while one is restarted, do not abort. -/
theorem handle_isSome {requests : List (Request Sysnum)}
    (h : requests.countP Request.restarts = 0 ∨
      requests.countP Request.restarts = 1 ∧ t.workaround = .inactive) :
    ∃ t', t.handle abi requests = some t' := by
  induction requests generalizing t with
  | nil => exact ⟨t, rfl⟩
  | cons q rs ih =>
    rw [List.countP_cons] at h
    have hq : ∃ t₁, t.request abi q = some t₁ := by
      cases q with
      | restartCurrent =>
        rw [show (Request.restarts (.restartCurrent : Request Sysnum)) = true from rfl,
          if_pos rfl] at h
        obtain h | ⟨-, hinactive⟩ := h
        · omega
        · refine ⟨_, if_neg ?_⟩
          rw [hinactive]
          exact fun h => h rfl
      | poke | register | restartOriginal | force => exact ⟨_, rfl⟩
    obtain ⟨t₁, hq⟩ := hq
    have hstate := (request_handled hq).workaround
    rw [List.countP_singleton] at hstate
    obtain ⟨t', ht'⟩ : ∃ t', t₁.handle abi rs = some t' := by
      apply ih
      by_cases hrestarts : q.restarts = true
      · rw [if_pos hrestarts] at h
        omega
      · rw [if_neg hrestarts] at h hstate
        rw [hstate]
        simpa using h
    refine ⟨t', ?_⟩
    rw [Tracee.handle, hq, Option.bind_some, ht']

theorem restarts_le_registers (requests : List (Request Sysnum)) :
    requests.countP Request.restarts ≤ requests.countP Request.registers := by
  apply List.countP_mono_left
  intro q _ hq
  cases q <;> first | exact hq | rfl

/-- A call that is restarted waits. -/
theorem Handled.queue_of_faulty {requests : List (Request Sysnum)} (h : Handled t t' requests)
    (hinactive : t.workaround ≠ .processFaultyCall) (hfaulty : t'.workaround = .processFaultyCall) :
    0 < t'.queue.length := by
  have hle := restarts_le_registers requests
  rw [h.workaround] at hfaulty
  rw [h.length]
  split at hfaulty
  · exact absurd hfaulty hinactive
  · omega

/-! ### The entry stop -/

/-- Registers are written without those of the original call. -/
theorem pushSpecificRegs_entry (hrestore : t.restoreOriginalRegs = false) (p : Process)
    (includingSysnum refused : Bool) :
    (∃ p' : Process, t.pushSpecificRegs p includingSysnum refused = (true, t, p') ∧
      (p'.regs = t.current ∨ t.regsWereChanged = false ∧ p'.regs = p.regs)) ∨
    t.pushSpecificRegs p includingSysnum refused = (false, t, p) ∧ t.regsWereChanged = true ∧
      includingSysnum = true ∧ t.current.reg .sysargNum ≠ t.original.reg .sysargNum := by
  rw [Tracee.pushSpecificRegs]
  cases hchanged : t.regsWereChanged with
  | false => exact .inl ⟨p, rfl, .inr ⟨rfl, rfl⟩⟩
  | true =>
    rw [hrestore]
    simp only [Bool.not_true, Bool.false_eq_true, if_false]
    split
    · rename_i hnumber
      cases refused with
      | true => exact .inr ⟨rfl, trivial, hnumber⟩
      | false => exact .inl ⟨_, rfl, .inl rfl⟩
    · exact .inl ⟨_, rfl, .inl rfl⟩

/-- All the arguments are poked. -/
theorem pokeSysargs_handled (t : Tracee Sysnum) (values : Fin 6 → UInt64) :
    Handled t (t.pokeSysargs values)
      ((List.finRange 6).map fun i => .poke (.sysarg i) (values i)) := by
  have hfold : ∀ (is : List (Fin 6)) (t : Tracee Sysnum),
      Handled t (is.foldl (fun t i => t.pokeReg (.sysarg i) (values i)) t)
        (is.map fun i => .poke (.sysarg i) (values i)) := by
    intro is
    induction is with
    | nil => exact Handled.refl
    | cons i is ih => exact fun t => (pokeReg_handled t _ _).append (ih _)
  exact hfold _ t

/-- What the entry stop pokes behind its handlers. -/
def Entry.pokes (e : Entry Sysnum) (regs : Regs) : List (Request Sysnum) :=
  (match e.error with
    | some error => [.poke .sysargNum syscallAvoider, .poke sysargResult error]
    | none => []) ++
  if e.restartHow = .cont then [.poke .stackPointer (regs.reg .stackPointer)] else []

theorem countP_pokes (e : Entry Sysnum) (regs : Regs) {P : Request Sysnum → Bool}
    (hP : ∀ r value, P (.poke r value) = false) : (e.pokes regs).countP P = 0 := by
  rw [List.countP_eq_zero]
  intro q hq
  rw [Entry.pokes, List.mem_append] at hq
  have hpoke : ∃ r value, q = .poke r value := by
    obtain hq | hq := hq
    · split at hq
      · simp only [List.mem_cons, List.not_mem_nil, or_false] at hq
        obtain rfl | rfl := hq <;> exact ⟨_, _, rfl⟩
      · cases hq
    · split at hq
      · rw [List.mem_singleton] at hq
        exact ⟨_, _, hq⟩
      · cases hq
  obtain ⟨r, value, rfl⟩ := hpoke
  rw [hP]
  exact Bool.false_ne_true

theorem endEntry_handled (t : Tracee Sysnum) (e : Entry Sysnum) :
    Handled t (t.endEntry e) (e.pokes t.original) := by
  rw [Tracee.endEntry, Entry.pokes]
  cases e.error with
  | none =>
    dsimp only
    split
    · exact (Handled.refl t).append (pokeReg_handled _ _ _)
    · exact (Handled.refl t).append (Handled.refl t)
  | some error =>
    have hpoked := (pokeReg_handled t .sysargNum syscallAvoider).append
      (pokeReg_handled _ sysargResult error)
    dsimp only
    split
    · rw [hpoked.original]
      exact hpoked.append (pokeReg_handled _ _ _)
    · exact hpoked.append (Handled.refl _)

/-- The entry stop of the guest's own call. -/
theorem translateEntry_guest (abi : Sysnums Sysnum) {e : Entry Sysnum}
    (hsyscalls : t.syscalls = none) (hinactive : t.workaround = .inactive)
    (hrestarts : e.requests.countP Request.restarts ≤ 1) :
    ∃ t', t.translateEntry abi e = some (t', e.restartHow) ∧
      Handled t.saveOriginal t' (e.requests ++ e.pokes t.current) := by
  obtain ⟨t₁, ht₁⟩ : ∃ t₁, t.saveOriginal.handle abi e.requests = some t₁ := by
    apply handle_isSome
    have hcases : e.requests.countP Request.restarts = 0 ∨
        e.requests.countP Request.restarts = 1 := by omega
    exact hcases.imp_right fun h => ⟨h, hinactive⟩
  have hhandled := handle_handled ht₁
  have hend := endEntry_handled t₁ e
  rw [hhandled.original] at hend
  refine ⟨t₁.endEntry e, ?_, hhandled.append hend⟩
  rw [Tracee.translateEntry, hsyscalls]
  dsimp only
  rw [ht₁, Option.map_some]

theorem failSysargs_handled (abi : Sysnums Sysnum) (t : Tracee Sysnum) :
    ∃ rs, Handled t (t.failSysargs abi) rs := by
  have hpoked := pokeSysargs_handled t fun _ => 0 - 1
  rw [Tracee.failSysargs]
  split
  · exact ⟨_, hpoked.append (pokeReg_handled _ _ _)⟩
  · exact ⟨_, hpoked⟩

/-- The workaround puts the call that could not be made in the queue, or none. -/
theorem failCall_handled (abi : Sysnums Sysnum) (hinactive : t.workaround = .inactive)
    (hchanged : t.regsWereChanged = true) (hrestore : t.restoreOriginalRegs = false) (p : Process) :
    ∃ t' p' rs, t.failCall abi p = some (t', p') ∧ Handled t t' rs ∧
      p'.regs = t'.current := by
  obtain ⟨t₁, rs₁, ht₁, hrestarted⟩ : ∃ t₁ rs₁,
      (if t.current.reg .sysargNum ≠ syscallAvoider then t.restartCurrentSyscallAsChained abi
        else some t) = some t₁ ∧ Handled t t₁ rs₁ := by
    split
    · have hnone : ¬ t.workaround ≠ .inactive := fun h => h hinactive
      exact ⟨_, _, if_neg hnone, restartCurrent_handled (if_neg hnone)⟩
    · exact ⟨t, [], rfl, Handled.refl t⟩
  obtain ⟨rs₂, hfail⟩ := failSysargs_handled abi t₁
  have hboth := hrestarted.append hfail
  have hstill : (t₁.failSysargs abi).regsWereChanged = true := by
    by_contra h
    rw [Bool.not_eq_true] at h
    rw [(hboth.unchanged h).1] at hchanged
    exact Bool.false_ne_true hchanged
  obtain ⟨p', hpush, hregs⟩ | ⟨-, -, hsysnum, -⟩ :=
    pushSpecificRegs_entry (hboth.restore.trans hrestore) p false false
  · refine ⟨_, p', _, ?_, hboth, ?_⟩
    · rw [Tracee.failCall]
      rw [ht₁, Option.map_some, hpush]
    · refine hregs.resolve_right fun h => ?_
      rw [h.1] at hstill
      exact Bool.false_ne_true hstill
  · cases hsysnum

/-- The thread is in a system call. -/
structure State.InKernel (abi : Sysnums Sysnum) (regs : Regs) (s : State Sysnum) : Prop where
  stage : s.stage = .inKernel
  trap : s.trap = regs.instrPointer
  original : s.tracee.original = regs
  instrPointer : s.process.regs.instrPointer = regs.instrPointer
  unchanged : s.tracee.regsWereChanged = false → s.process.regs = regs
  books : ∃ done first, s.tracee.Books done ∧
    s.tracee.history.executed = first :: done.map (ChainedSyscall.kernelCall abi)
  faulty : s.tracee.workaround = .processFaultyCall → 0 < s.tracee.queue.length

/-- The thread is about to make a call of its chain. -/
structure State.Chained (abi : Sysnums Sysnum) (regs : Regs) (s : State Sysnum) : Prop where
  stage : s.stage = .atEntry
  trap : s.trap = regs.instrPointer
  original : s.tracee.original = regs
  instrPointer : s.process.regs.instrPointer = regs.instrPointer
  syscalls : s.tracee.syscalls.isSome
  changed : s.tracee.regsWereChanged = true
  books : ∃ done first call, s.tracee.Books (done ++ [call]) ∧
    s.tracee.history.executed = first :: done.map (ChainedSyscall.kernelCall abi) ∧
    (s.process.sysnum, fun i => s.process.regs.reg (.sysarg i)) = call.kernelCall abi
  faulty : s.tracee.workaround = .processFaultyCall → 0 < s.tracee.queue.length

variable {regs : Regs} {s : State Sysnum} {e : Entry Sysnum}

/-- A call of a chain is made as it is. -/
theorem enterStop_chained (h : s.Chained abi regs) :
    (s.enterStop abi e).InKernel abi regs ∧
      (s.enterStop abi e).tracee.history.executed.length =
        s.tracee.history.executed.length + 1 := by
  obtain ⟨queue, hqueue⟩ := Option.isSome_iff_exists.1 h.syscalls
  obtain ⟨done, first, call, hbooks, hexecuted, hcall⟩ := h.books
  have henter : s.enterStop abi e = s.restart
      { s.tracee with current := s.process.regs, restoreOriginalRegs := false } s.process
      .syscall := by
    simp only [State.enterStop, Tracee.translateEntry, hqueue, Tracee.pushSpecificRegs, h.changed,
      Bool.not_true, Bool.false_eq_true, if_false, Option.isNone_some, false_and]
  rw [henter]
  refine ⟨⟨rfl, h.trap, h.original, h.instrPointer, fun hno => ?_, ?_, h.faulty⟩, ?_⟩
  · exact absurd (h.changed.symm.trans hno) Bool.false_ne_true.symm
  · refine ⟨done ++ [call], first, ⟨hbooks.registered, hbooks.forced, hbooks.unforced⟩, ?_⟩
    change s.tracee.history.executed ++ [(s.process.sysnum, _)] = _
    rw [hexecuted, hcall, List.cons_append, List.map_append]
    rfl
  · change (s.tracee.history.executed ++ [_]).length = _
    rw [List.length_append, List.length_singleton]

/-- What the entry stop of the guest's own call leaves, where an exit stop follows. -/
theorem restart_inKernel {requests : List (Request Sysnum)}
    (h : Handled (State.start regs).tracee t requests)
    (hp : p.regs = t.current ∨ t.regsWereChanged = false ∧ p.regs = regs) :
    ((State.start regs : State Sysnum).restart t p .syscall).InKernel abi regs ∧
      ((State.start regs : State Sysnum).restart t p .syscall).tracee.history.executed.length =
        1 := by
  have hexecuted :
      ((State.start regs : State Sysnum).restart t p .syscall).tracee.history.executed =
        [(p.sysnum, fun i => p.regs.reg (.sysarg i))] := by
    change t.history.executed ++ [_] = _
    rw [h.executed]
    rfl
  refine ⟨⟨rfl, rfl, h.original, ?_, ?_, ?_, ?_⟩, by rw [hexecuted]; rfl⟩
  · obtain hp | ⟨-, hp⟩ := hp
    · exact (congrArg Regs.instrPointer hp).trans h.instrPointer
    · exact congrArg Regs.instrPointer hp
  · intro hsame
    obtain hp | ⟨-, hp⟩ := hp
    · exact hp.trans (h.unchanged hsame).2
    · exact hp
  · have hbooks := h.books [] ⟨rfl, rfl, fun _ => rfl⟩
    exact ⟨[], _, ⟨hbooks.registered, hbooks.forced, hbooks.unforced⟩, hexecuted⟩
  · exact h.queue_of_faulty fun hfaulty => nomatch hfaulty

/-- A call that is left alone and has no exit stop. -/
theorem leave_ended {requests : List (Request Sysnum)}
    (h : Handled (State.start regs).tracee t requests)
    (hregisters : requests.countP Request.registers = 0)
    (hrestarts : requests.countP Request.restarts = 0)
    (hforces : requests.countP Request.forces = 0)
    (hpoked : ∀ r, r ≠ sysargResult → poked regs.reg requests r = regs.reg r)
    (hp : p.regs = t.current ∨ t.regsWereChanged = false ∧ p.regs = regs) (result : UInt64) :
    (((State.start regs : State Sysnum).restart t p .cont).leave result).Ended abi regs := by
  have hbooks := h.books [] ⟨rfl, rfl, fun _ => rfl⟩
  obtain ⟨hforce, hfinal⟩ := h.force hforces
  have hsyscalls : t.syscalls = none := h.none.2 ⟨rfl, hregisters⟩
  have hforced : t.history.forced = none := by
    rw [hbooks.forced, hforce]
    rfl
  have hregistered : t.history.registered = [] := by
    rw [hbooks.registered, Tracee.queue, hsyscalls]
    rfl
  have hworkaround : t.workaround = .inactive := by
    rw [h.workaround, if_pos hrestarts]
    rfl
  refine ⟨hsyscalls, hforce, hfinal, hworkaround, ?_, ?_, ?_, ?_⟩
  · change (t.history.executed ++ [_]).tail = t.history.registered.map _
    rw [hregistered, h.executed]
    rfl
  · change Function.update p.regs.reg sysargResult result sysargResult =
      t.history.forced.getD result
    rw [Function.update_self, hforced]
    rfl
  · intro r hr
    change Function.update p.regs.reg sysargResult result r = _
    rw [Function.update_of_ne hr]
    obtain hp | ⟨-, hp⟩ := hp
    · rw [hp, h.regs]
      exact hpoked r hr
    · rw [hp]
  · change p.regs.instrPointer = _
    obtain hp | ⟨-, hp⟩ := hp
    · exact (congrArg Regs.instrPointer hp).trans h.instrPointer
    · exact congrArg Regs.instrPointer hp

theorem countP_eq_zero_of_pokes {requests : List (Request Sysnum)} {P : Request Sysnum → Bool}
    (h : requests.all Request.pokes) (hP : ∀ r value, P (.poke r value) = false) :
    requests.countP P = 0 := by
  rw [List.countP_eq_zero]
  intro q hq
  have hpokes := List.all_eq_true.1 h q hq
  cases q with
  | poke r value =>
    rw [hP]
    exact Bool.false_ne_true
  | register | restartOriginal | restartCurrent | force => cases hpokes

/-- A call that has no exit stop leaves the registers. -/
theorem State.EntrySound.poked_pokes (hsound : (State.start regs : State Sysnum).EntrySound e)
    (hhow : e.restartHow = .cont) {r : Reg} (hr : r ≠ sysargResult) :
    poked regs.reg (e.requests ++ e.pokes regs) r = regs.reg r := by
  obtain ⟨herror, -, hsame⟩ := hsound.cont rfl hhow
  have hpokes : e.pokes regs = [.poke .stackPointer (regs.reg .stackPointer)] := by
    rw [Entry.pokes, herror, if_pos hhow]
    rfl
  rw [poked_append, hpokes]
  change Function.update (poked regs.reg e.requests) .stackPointer _ r = _
  by_cases hsp : r = .stackPointer
  · rw [hsp, Function.update_self]
  · rw [Function.update_of_ne hsp]
    exact hsame r hr hsp

/-- The entry stop of the guest's own call. -/
theorem enterStop_eq {t : Tracee Sysnum} {how : RestartHow}
    (ht : (State.start regs : State Sysnum).tracee.translateEntry abi e = some (t, how)) :
    (State.start regs).enterStop abi e =
      match t.pushSpecificRegs (State.start regs : State Sysnum).process t.syscalls.isNone
        e.refused with
      | (true, t, p) => (State.start regs).restart t p how
      | (false, t, p) =>
        let how := if t.current.reg .sysargNum ≠ syscallAvoider then how else .syscall
        match t.failCall abi p with
        | none => { (State.start regs : State Sysnum) with stage := .aborted }
        | some (t, p) => (State.start regs).restart t p how := by
  have ht' : Tracee.translateEntry abi { (State.start regs : State Sysnum).tracee with
      current := (State.start regs : State Sysnum).process.regs, restoreOriginalRegs := false } e =
      some (t, how) := ht
  rewrite [State.enterStop, ht']
  rfl

theorem enterStop_guest (abi : Sysnums Sysnum)
    (hsound : (State.start regs : State Sysnum).EntrySound e) :
    ((State.start regs).enterStop abi e).InKernel abi regs ∧
        ((State.start regs).enterStop abi e).tracee.history.executed.length = 1 ∨
      ((State.start regs).enterStop abi e).stage = .finished ∧
        ∀ result, (((State.start regs).enterStop abi e).leave result).Ended abi regs := by
  obtain ⟨t, ht, hhandled⟩ := translateEntry_guest abi
    (t := (State.start regs : State Sysnum).tracee) rfl rfl (hsound.restarts rfl)
  rw [enterStop_eq ht]
  obtain ⟨p, hpush, hp⟩ | ⟨hpush, hchanged, hnone, hnumber⟩ :=
    pushSpecificRegs_entry (hhandled.restore.trans rfl)
      (State.start regs : State Sysnum).process t.syscalls.isNone e.refused
  · rw [hpush]
    dsimp only
    cases hhow : e.restartHow with
    | syscall => exact .inl (restart_inKernel hhandled hp)
    | cont =>
      obtain ⟨-, hall, -⟩ := hsound.cont rfl hhow
      have hzero : ∀ {P : Request Sysnum → Bool}, (∀ r value, P (.poke r value) = false) →
          (e.requests ++ e.pokes regs).countP P = 0 := by
        intro P hP
        rw [List.countP_append, countP_eq_zero_of_pokes hall hP, countP_pokes e regs hP]
      exact .inr ⟨rfl, leave_ended hhandled (hzero fun _ _ => rfl) (hzero fun _ _ => rfl)
        (hzero fun _ _ => rfl) (fun r hr => hsound.poked_pokes hhow hr) hp⟩
  · rw [hpush]
    dsimp only
    cases hhow : e.restartHow with
    | cont =>
      refine absurd ?_ hnumber
      rw [hhandled.regs, hhandled.original]
      exact hsound.poked_pokes hhow fun h => by cases h
    | syscall =>
      left
      have hregisters := (hhandled.none.1 (Option.isNone_iff_eq_none.1 hnone)).2
      have hle := restarts_le_registers (e.requests ++ e.pokes regs)
      have hinactive : t.workaround = .inactive := by
        rw [hhandled.workaround, if_pos (Nat.le_zero.1 (hregisters ▸ hle))]
        rfl
      obtain ⟨t', p', rs, hfail, hrest, hp'⟩ := failCall_handled abi hinactive hchanged
        (hhandled.restore.trans rfl) (State.start regs : State Sysnum).process
      rw [hfail, ite_self]
      exact restart_inKernel (hhandled.append hrest) (.inl hp')

/-! ### The exit stop -/

/-- The tracee when the handlers of an exit stop are done. -/
structure Ready (abi : Sysnums Sysnum) (regs : Regs) (t : Tracee Sysnum) : Prop where
  original : t.original = regs
  restore : t.restoreOriginalRegs = true
  instrPointer : t.current.instrPointer = regs.instrPointer
  result : t.current.reg sysargResult = t.history.last
  unchanged : t.regsWereChanged = false → ∀ r, r ≠ sysargResult → t.current.reg r = regs.reg r
  books : ∃ done first, t.Books done ∧
    t.history.executed = first :: done.map (ChainedSyscall.kernelCall abi)
  faulty : t.workaround = .processFaultyCall → 2 ≤ t.queue.length
  replaced : t.workaround = .processReplacedCall → 0 < t.queue.length
  ended : t.syscalls = none → t.workaround = .inactive ∧ t.forceFinalResult = false

/-- The tracee at an exit stop, before its handlers. -/
def State.atExit (s : State Sysnum) (result last : UInt64) : Tracee Sysnum :=
  { s.tracee with
    current := { s.process.regs with
      reg := Function.update s.process.regs.reg sysargResult result }
    restoreOriginalRegs := true
    history := { s.tracee.history with last := last } }

variable {requests : List (Request Sysnum)}

theorem exitStop_eq {result last : UInt64}
    (hlast : (if s.tracee.syscalls.isSome ∧ s.tracee.workaround = .processFaultyCall then result
      else State.answer result requests) = last) :
    s.exitStop abi result requests =
      match State.exitHandlers abi (s.atExit result last) requests with
      | none => { s with stage := .aborted }
      | some t =>
        s.resume ((t.insertNext abi).pushSpecificRegs
          { s.process with regs := (s.atExit result 0).current } false false).2.1
          ((t.insertNext abi).pushSpecificRegs
            { s.process with regs := (s.atExit result 0).current } false false).2.2 := by
  rw [State.exitStop, hlast]
  rfl

theorem poked_sysargResult (reg : Reg → UInt64) (requests : List (Request Sysnum)) :
    poked reg requests sysargResult = State.answer (reg sysargResult) requests := by
  induction requests generalizing reg with
  | nil => rfl
  | cons q rs ih =>
    cases q with
    | poke r value =>
      refine (ih _).trans ?_
      rw [State.answer]
      by_cases hr : r = sysargResult
      · rw [hr, Function.update_self, if_pos rfl]
      · rw [Function.update_of_ne (Ne.symm hr), if_neg hr]
    | register | restartOriginal | restartCurrent | force => exact ih reg

/-- The handlers run. -/
theorem ready_of_handle (h : s.InKernel abi regs) (hsound : s.ExitSound requests)
    (hfaulty : s.tracee.workaround ≠ .processFaultyCall) (result : UInt64) :
    ∃ t, ({ s.atExit result (State.answer result requests) with workaround := .inactive } :
        Tracee Sysnum).handle abi requests = some t ∧
      t.history.executed = s.tracee.history.executed ∧
      (t.regsWereChanged = false → t.current = (s.atExit result 0).current) ∧
      Ready abi regs t := by
  obtain ⟨hcount, hbehind⟩ := hsound.restarts hfaulty
  obtain ⟨t, ht⟩ : ∃ t, ({ s.atExit result (State.answer result requests) with
      workaround := .inactive } : Tracee Sysnum).handle abi requests = some t := by
    apply handle_isSome
    have hcases : requests.countP Request.restarts = 0 ∨
        requests.countP Request.restarts = 1 := by omega
    exact hcases.imp_right fun h => ⟨h, rfl⟩
  have hhandled := handle_handled ht
  obtain ⟨done, first, hbooks, hexecuted⟩ := h.books
  have hqueue : t.queue.length = s.tracee.queue.length + requests.countP Request.registers :=
    hhandled.length
  refine ⟨t, ht, hhandled.executed, fun hsame => (hhandled.unchanged hsame).2, ?_⟩
  refine ⟨hhandled.original.trans h.original, hhandled.restore,
    hhandled.instrPointer.trans h.instrPointer, ?_, ?_, ?_, ?_, ?_, ?_⟩
  · rw [hhandled.regs, hhandled.last, poked_sysargResult]
    change State.answer (Function.update s.process.regs.reg sysargResult result sysargResult) _ = _
    rw [Function.update_self]
    rfl
  · intro hsame r hr
    obtain ⟨hsame', hcurrent⟩ := hhandled.unchanged hsame
    rw [hcurrent]
    refine (Function.update_of_ne hr _ _).trans ?_
    rw [h.unchanged hsame']
  · exact ⟨done, first, hhandled.books done ⟨hbooks.registered, hbooks.forced, hbooks.unforced⟩,
      hhandled.executed.trans hexecuted⟩
  · intro hrestarted
    rw [hhandled.workaround] at hrestarted
    split at hrestarted
    · cases hrestarted
    · rw [hqueue]
      exact hbehind (by omega)
  · intro hreplaced
    rw [hhandled.workaround] at hreplaced
    split at hreplaced <;> cases hreplaced
  · intro hnone
    obtain ⟨hbefore, hzero⟩ := hhandled.none.1 hnone
    have hle := restarts_le_registers requests
    obtain ⟨hforce, hforces⟩ := hsound.forced hbefore hzero
    rw [hhandled.workaround, if_pos (by omega)]
    exact ⟨rfl, (hhandled.force hforces).1.trans hforce⟩

/-- The exit stop up to the end of its handlers. -/
theorem exitHandlers_ready (h : s.InKernel abi regs) (hsound : s.ExitSound requests)
    (result : UInt64) :
    ∃ t last, State.exitHandlers abi (s.atExit result last) requests = some t ∧
      (last = if s.tracee.syscalls.isSome ∧ s.tracee.workaround = .processFaultyCall then result
        else State.answer result requests) ∧
      t.history.executed = s.tracee.history.executed ∧
      (t.regsWereChanged = false → t.current = (s.atExit result 0).current) ∧
      Ready abi regs t := by
  by_cases hfaulty : s.tracee.workaround = .processFaultyCall
  · have hqueue := h.faulty hfaulty
    have hsome : s.tracee.syscalls.isSome := by
      by_contra hnone
      rw [Bool.not_eq_true, Option.isSome_eq_false_iff, Option.isNone_iff_eq_none] at hnone
      rw [Tracee.queue, hnone] at hqueue
      exact absurd hqueue (Nat.lt_irrefl 0)
    obtain ⟨done, first, hbooks, hexecuted⟩ := h.books
    have hskip : State.exitHandlers abi (s.atExit result result) requests =
        some { s.atExit result result with workaround := .processReplacedCall } := by
      have hfaulty' : (s.atExit result result).workaround = .processFaultyCall := hfaulty
      rw [State.exitHandlers, if_neg, if_pos hfaulty']
      rintro (hnone | hreplaced)
      · have hnone' : s.tracee.syscalls = none := Option.isNone_iff_eq_none.1 hnone
        rw [hnone'] at hsome
        cases hsome
      · exact absurd (hfaulty.symm.trans hreplaced) (fun h => nomatch h)
    refine ⟨_, result, hskip, (if_pos ⟨hsome, hfaulty⟩).symm, rfl, fun _ => rfl, h.original, rfl,
      h.instrPointer, ?_, ?_, ⟨done, first, ?_, hexecuted⟩, (fun h => nomatch h),
      fun _ => hqueue, ?_⟩
    · change Function.update s.process.regs.reg sysargResult result sysargResult = result
      rw [Function.update_self]
    · intro hsame r hr
      refine (Function.update_of_ne hr _ _).trans ?_
      rw [h.unchanged hsame]
    · exact ⟨hbooks.registered, hbooks.forced, hbooks.unforced⟩
    · intro hnone
      have hnone' : s.tracee.syscalls = none := hnone
      rw [hnone'] at hsome
      cases hsome
  · obtain ⟨t, ht, hready⟩ := ready_of_handle h hsound hfaulty result
    refine ⟨t, _, ?_, (if_neg fun h => hfaulty h.2).symm, hready⟩
    rw [State.exitHandlers]
    split
    · exact ht
    · rename_i hother
      have hinactive : s.tracee.workaround = .inactive := by
        cases hstate : s.tracee.workaround with
        | inactive => rfl
        | processFaultyCall => exact absurd hstate hfaulty
        | processReplacedCall => exact absurd (.inr hstate) hother
      have hsame : ({ s.atExit result (State.answer result requests) with
          workaround := .inactive } : Tracee Sysnum) =
            s.atExit result (State.answer result requests) := by
        rw [← hinactive]
        rfl
      rw [hsame] at ht
      exact (if_neg hfaulty).trans ht

/-- The registers are written, those of the guest restored. -/
theorem pushSpecificRegs_exit (hrestore : t.restoreOriginalRegs = true)
    (hp : p.regs = t.current ∨ t.regsWereChanged = true)
    (hsame : t.regsWereChanged = false → ∀ r, r ≠ sysargResult → t.current.reg r = t.original.reg r)
      :
    ∃ t' p', t.pushSpecificRegs p false false = (true, t', p') ∧
      (∃ current, t' = { t with current := current }) ∧
      p'.regs.reg sysargResult = t.current.reg sysargResult ∧
      (∀ r, r ≠ sysargResult → p'.regs.reg r = t.original.reg r) ∧
      p'.regs.instrPointer = t.current.instrPointer := by
  rw [Tracee.pushSpecificRegs]
  cases hchanged : t.regsWereChanged with
  | false =>
    rw [hchanged] at hp
    have hp' := hp.resolve_right Bool.false_ne_true
    refine ⟨t, p, rfl, ⟨t.current, by rw [← hchanged]⟩, by rw [hp'], ?_, by rw [hp']⟩
    intro r hr
    rw [hp']
    exact hsame hchanged r hr
  | true =>
    rw [hrestore]
    refine ⟨{ t with current := t.restored }, { p with regs := t.restored }, ?_,
      ⟨t.restored, by rw [hchanged, hrestore]⟩, ?_, ?_, rfl⟩
    · simp only [Bool.not_true, Bool.false_eq_true, if_false, if_true, false_and, hchanged,
        hrestore]
    · change (if sysargResult = sysargResult then t.current.reg sysargResult
        else t.original.reg sysargResult) = _
      rw [if_pos rfl]
    · intro r hr
      exact if_neg hr

theorem add_systrapSize_ne (pointer : UInt64) : pointer + systrapSize ≠ pointer := by
  intro hsame
  have hzero : systrapSize = 0 := by
    rw [← UInt64.add_right_inj, hsame, UInt64.add_zero]
  exact absurd hzero (by decide)

/-- The guest is back in its program. -/
theorem resume_ended (hready : Ready abi regs t) (htrap : s.trap = regs.instrPointer)
    {t' : Tracee Sysnum} (hp : p.regs.instrPointer = regs.instrPointer)
    (hresult : p.regs.reg sysargResult = t.history.forced.getD t.history.last)
    (hothers : ∀ r, r ≠ sysargResult → p.regs.reg r = regs.reg r)
    (hhistory : t'.history = t.history) (hqueue : t.queue = []) (hfreed : t'.syscalls = none)
    (hforce : t'.forceFinalResult = false) (hfinal : t'.finalResult = 0)
    (hworkaround : t'.workaround = .inactive) :
    (s.resume t' p).stage = .finished ∧ (s.resume t' p).Ended abi regs := by
  have hresume : s.resume t' p = { s with tracee := t', process := p, stage := .finished } := by
    rw [State.resume, if_neg]
    rw [hp, htrap]
    exact add_systrapSize_ne _
  obtain ⟨done, first, hbooks, hexecuted⟩ := hready.books
  rw [hresume]
  refine ⟨rfl, hfreed, hforce, hfinal, hworkaround, ?_, ?_, hothers, hp⟩
  · change t'.history.executed.tail = t'.history.registered.map _
    rw [hhistory, hexecuted, hbooks.registered, hqueue, List.append_nil]
    rfl
  · change p.regs.reg sysargResult = t'.history.forced.getD t'.history.last
    rw [hhistory]
    exact hresult

/-- A chain that is empty is freed, and its forced result written. -/
theorem chainNextSyscall_nil (abi : Sysnums Sysnum)
    (hforced : t.history.forced =
      if t.forceFinalResult then some t.finalResult else none)
    (hlast : t.current.reg sysargResult = t.history.last) :
    ∃ current changed, t.chainNextSyscall abi [] =
        { t with
          syscalls := none, forceFinalResult := false, finalResult := 0, current := current,
          regsWereChanged := changed } ∧
      current.reg sysargResult = t.history.forced.getD t.history.last ∧
      (∀ r, r ≠ sysargResult → current.reg r = t.current.reg r) ∧
      current.instrPointer = t.current.instrPointer ∧
      (changed = false → t.regsWereChanged = false ∧ current = t.current) := by
  rw [Tracee.chainNextSyscall, hforced]
  dsimp only
  cases hforce : t.forceFinalResult with
  | false =>
    exact ⟨t.current, t.regsWereChanged, rfl, hlast, fun _ _ => rfl, rfl, fun h => ⟨h, rfl⟩⟩
  | true =>
    have hreg := pokeReg_reg { t with syscalls := none } sysargResult t.finalResult
    obtain ⟨current, changed, heq, hpointer, hsame⟩ :=
      pokeReg_frame { t with syscalls := none } sysargResult t.finalResult
    rw [heq] at hreg
    refine ⟨current, changed, ?_, ?_, ?_, hpointer, hsame⟩
    · simp only [hforce, if_true] at heq ⊢
      rw [heq]
    · refine (congrFun hreg _).trans ?_
      rw [Function.update_self]
      rfl
    · intro r hr
      refine (congrFun hreg _).trans ?_
      rw [Function.update_of_ne hr]

/-- The end of a chain, or of a call without one. -/
theorem exit_ended (hready : Ready abi regs t) (htrap : s.trap = regs.instrPointer)
    (hp : p.regs = t.current ∨ t.regsWereChanged = true) (hqueue : t.queue = []) :
    (s.resume ((t.insertNext abi).pushSpecificRegs p false false).2.1
        ((t.insertNext abi).pushSpecificRegs p false false).2.2).stage = .finished ∧
      (s.resume ((t.insertNext abi).pushSpecificRegs p false false).2.1
        ((t.insertNext abi).pushSpecificRegs p false false).2.2).Ended abi regs := by
  obtain ⟨done, first, hbooks, -⟩ := hready.books
  rw [Tracee.insertNext]
  cases hsyscalls : t.syscalls with
  | none =>
    obtain ⟨hinactive, hforce⟩ := hready.ended hsyscalls
    obtain ⟨t', p', hpush, ⟨current, rfl⟩, hresult, hothers, hpointer⟩ :=
      pushSpecificRegs_exit hready.restore hp fun hsame r hr => by
        rw [hready.original]
        exact hready.unchanged hsame r hr
    rw [hready.original] at hothers
    dsimp only
    rw [hpush]
    refine resume_ended hready htrap (hpointer.trans hready.instrPointer) ?_ hothers rfl hqueue
      hsyscalls hforce (hbooks.unforced hforce) hinactive
    rw [hresult, hready.result, hbooks.forced, hforce]
    rfl
  | some queue =>
    have hempty : queue = [] := by
      rw [Tracee.queue, hsyscalls] at hqueue
      exact hqueue
    subst hempty
    obtain ⟨current, changed, hnext, hforced, hrest, hpointer, hsame⟩ :=
      chainNextSyscall_nil abi hbooks.forced hready.result
    have hp' : p.regs = current ∨ changed = true := by
      cases changed with
      | true => exact .inr rfl
      | false =>
        obtain ⟨hunchanged, heq⟩ := hsame rfl
        rw [hunchanged] at hp
        rw [heq]
        exact .inl (hp.resolve_right Bool.false_ne_true)
    dsimp only
    rw [hnext]
    obtain ⟨t', p', hpush, ⟨current', rfl⟩, hresult, hothers, hpointer'⟩ :=
      pushSpecificRegs_exit (t := { t with
          syscalls := none, forceFinalResult := false, finalResult := 0, current := current,
          regsWereChanged := changed }) hready.restore hp' fun hunchanged r hr => by
        change current.reg r = t.original.reg r
        rw [hrest r hr, hready.original]
        exact hready.unchanged (hsame hunchanged).1 r hr
    have hworkaround : t.workaround = .inactive := by
      cases hstate : t.workaround with
      | inactive => rfl
      | processFaultyCall =>
        have htwo := hready.faulty hstate
        rw [hqueue] at htwo
        exact absurd htwo (Nat.not_succ_le_zero 1)
      | processReplacedCall =>
        have hone := hready.replaced hstate
        rw [hqueue] at hone
        exact absurd hone (Nat.lt_irrefl 0)
    rw [hpush]
    exact resume_ended hready htrap (hpointer'.trans (hpointer.trans hready.instrPointer))
      (hresult.trans hforced) (fun r hr => (hothers r hr).trans (by rw [hready.original])) rfl
      hqueue rfl rfl rfl hworkaround

theorem poked_map_sysarg (reg : Reg → UInt64) (values : Fin 6 → UInt64) (is : List (Fin 6))
    (i : Fin 6) :
    poked reg (is.map fun i => (.poke (.sysarg i) (values i) : Request Sysnum)) (.sysarg i) =
      if i ∈ is then values i else reg (.sysarg i) := by
  induction is generalizing reg with
  | nil => rfl
  | cons j is ih =>
    rw [List.map_cons, poked, ih]
    by_cases hrest : i ∈ is
    · rw [if_pos hrest, if_pos (List.mem_cons_of_mem j hrest)]
    · rw [if_neg hrest]
      by_cases hhead : i = j
      · rw [hhead, Function.update_self, if_pos List.mem_cons_self]
      · have hother : Reg.sysarg i ≠ .sysarg j := fun h => hhead (Reg.sysarg.inj h)
        rw [Function.update_of_ne hother, if_neg]
        rw [List.mem_cons]
        exact fun h => h.elim hhead hrest

/-- The arguments of a call are those that are poked. -/
theorem poked_sysargs (reg : Reg → UInt64) (values : Fin 6 → UInt64) (number : UInt64) (i : Fin 6) :
    poked reg ((List.finRange 6).map (fun i => .poke (.sysarg i) (values i)) ++
      [(.poke .sysargNum number : Request Sysnum)]) (.sysarg i) = values i := by
  have hother : Reg.sysarg i ≠ .sysargNum := nofun
  rw [poked_snoc, Function.update_of_ne hother, poked_map_sysarg, if_pos (List.mem_finRange i)]

/-- The thread is sent back to its trap. -/
theorem pokeInstrPointer_back (t : Tracee Sysnum) :
    t.pokeInstrPointer (t.current.instrPointer - systrapSize) =
      { t with
        current := { t.current with instrPointer := t.current.instrPointer - systrapSize }
        regsWereChanged := true } := by
  rw [Tracee.pokeInstrPointer, if_neg]
  intro hsame
  apply add_systrapSize_ne (t.current.instrPointer - systrapSize)
  rw [UInt64.sub_add_cancel]
  exact hsame

/-- The exit stop takes the next call of the chain. -/
theorem exit_chained {call : ChainedSyscall Sysnum} {rest : List (ChainedSyscall Sysnum)}
    (hready : Ready abi regs t) (htrap : s.trap = regs.instrPointer)
    (hqueue : t.syscalls = some (call :: rest)) :
    (s.resume ((t.insertNext abi).pushSpecificRegs p false false).2.1
        ((t.insertNext abi).pushSpecificRegs p false false).2.2).Chained abi regs ∧
      (s.resume ((t.insertNext abi).pushSpecificRegs p false false).2.1
        ((t.insertNext abi).pushSpecificRegs p false false).2.2).tracee.history.executed =
          t.history.executed := by
  have hpokes := (pokeSysargs_handled
    { t with restoreOriginalRegs := false, syscalls := some rest } call.sysargs).append
      (pokeReg_handled _ .sysargNum (abi.detranslate call.sysnum))
  obtain ⟨t₁, ht₁⟩ : ∃ t₁, ({ t with restoreOriginalRegs := false, syscalls := some rest } :
      Tracee Sysnum).pokeSysargs call.sysargs = t₁ := ⟨_, rfl⟩
  obtain ⟨t₂, ht₂⟩ : ∃ t₂, t₁.pokeReg .sysargNum (abi.detranslate call.sysnum) = t₂ := ⟨_, rfl⟩
  rw [ht₁, ht₂] at hpokes
  have hpointer : t₂.current.instrPointer = regs.instrPointer :=
    hpokes.instrPointer.trans hready.instrPointer
  have hnext : t.insertNext abi =
      { t₂ with
        current := { t₂.current with instrPointer := t₂.current.instrPointer - systrapSize }
        regsWereChanged := true } := by
    rw [Tracee.insertNext, hqueue]
    dsimp only
    rw [Tracee.chainNextSyscall, ht₁, ht₂, pokeInstrPointer_back]
  have hpush : (t.insertNext abi).pushSpecificRegs p false false =
      (true, t.insertNext abi, { p with regs := (t.insertNext abi).current }) := by
    have hrestore : t₂.restoreOriginalRegs = false := hpokes.restore
    rw [hnext, Tracee.pushSpecificRegs]
    simp only [hrestore, Bool.not_true, Bool.false_eq_true, if_false, false_and]
  have hmoved : t₂.current.instrPointer - systrapSize + systrapSize = s.trap := by
    rw [UInt64.sub_add_cancel, hpointer, htrap]
  rw [hpush, hnext, State.resume, if_pos hmoved]
  obtain ⟨done, first, hbooks, hexecuted⟩ := hready.books
  have htaken : ({ t with restoreOriginalRegs := false, syscalls := some rest } :
      Tracee Sysnum).Books (done ++ [call]) := by
    refine ⟨?_, hbooks.forced, hbooks.unforced⟩
    change t.history.registered = done ++ [call] ++ rest
    rw [hbooks.registered, Tracee.queue, hqueue, Option.getD_some, List.append_assoc]
    rfl
  have hall : ((List.finRange 6).map
      (fun i => (.poke (.sysarg i) (call.sysargs i) : Request Sysnum)) ++
      [(.poke .sysargNum (abi.detranslate call.sysnum) : Request Sysnum)]).all Request.pokes := by
    rw [List.all_append, List.all_map]
    simp [Request.pokes]
  have hlength : t₂.queue.length = rest.length := by
    rw [hpokes.length, countP_eq_zero_of_pokes hall fun _ _ => rfl]
    rfl
  have hworkaround : t₂.workaround = t.workaround := by
    rw [hpokes.workaround, if_pos (countP_eq_zero_of_pokes hall fun _ _ => rfl)]
  have hbooks₂ := hpokes.books _ htaken
  refine ⟨⟨rfl, htrap, hpokes.original.trans hready.original, htrap, ?_, rfl, ?_, ?_⟩,
    hpokes.executed⟩
  · change t₂.syscalls.isSome
    rw [Option.isSome_iff_ne_none]
    intro hnone
    exact absurd (hpokes.none.1 hnone).1 fun h => nomatch h
  · refine ⟨done, first, call, ⟨hbooks₂.registered, hbooks₂.forced, hbooks₂.unforced⟩, ?_, ?_⟩
    · exact hpokes.executed.trans hexecuted
    · have hargs : ∀ i, t₂.current.reg (.sysarg i) = call.sysargs i := by
        intro i
        rw [hpokes.regs, poked_sysargs]
      have hnumber : t₂.current.reg .sysargNum = abi.detranslate call.sysnum := by
        rw [hpokes.regs, poked_snoc, Function.update_self]
      exact Prod.ext hnumber (funext hargs)
  · intro hfaulty
    have htwo := hready.faulty (hworkaround.symm.trans hfaulty)
    rw [Tracee.queue, hqueue, Option.getD_some, List.length_cons] at htwo
    change 0 < t₂.queue.length
    omega

/-- The exit stop of a call. -/
theorem exitStop_inKernel (h : s.InKernel abi regs) (hsound : s.ExitSound requests)
    (result : UInt64) :
    (s.exitStop abi result requests).Chained abi regs ∧
        (s.exitStop abi result requests).tracee.history.executed =
          s.tracee.history.executed ∨
      (s.exitStop abi result requests).stage = .finished ∧
        (s.exitStop abi result requests).Ended abi regs := by
  obtain ⟨t, last, ht, hlast, hexecuted, hsame, hready⟩ := exitHandlers_ready h hsound result
  obtain ⟨p, hregs⟩ : ∃ p : Process, p = { s.process with regs := (s.atExit result 0).current } :=
    ⟨_, rfl⟩
  have hexit : s.exitStop abi result requests =
      s.resume ((t.insertNext abi).pushSpecificRegs p false false).2.1
        ((t.insertNext abi).pushSpecificRegs p false false).2.2 := by
    rw [exitStop_eq hlast.symm, ht, hregs]
  have hp : p.regs = t.current ∨ t.regsWereChanged = true := by
    rw [hregs]
    cases hchanged : t.regsWereChanged with
    | true => exact .inr rfl
    | false => exact .inl (hsame hchanged).symm
  rw [hexit]
  cases hsyscalls : t.syscalls with
  | none => exact .inr (exit_ended hready h.trap hp (by rw [Tracee.queue, hsyscalls]; rfl))
  | some queue =>
    cases queue with
    | nil => exact .inr (exit_ended hready h.trap hp (by rw [Tracee.queue, hsyscalls]; rfl))
    | cons call rest =>
      obtain ⟨hchained, hsameExecuted⟩ := exit_chained hready h.trap hsyscalls
      exact .inl ⟨hchained, hsameExecuted.trans hexecuted⟩

/-! ### Runs -/

/-- What holds between the system calls of a run. -/
inductive State.Inv (abi : Sysnums Sysnum) (regs : Regs) (s : State Sysnum) : Prop
  | guest (h : s = State.start regs)
  | chained (h : s.Chained abi regs)
  | finished (hstage : s.stage = .finished) (h : s.Ended abi regs)

theorem step_finished (hstage : s.stage = .finished) (r : Round Sysnum) : s.step abi r = s := by
  rw [State.step, if_pos]
  rw [hstage]
  exact fun hentry => nomatch hentry

/-- A system call keeps the invariant, and executes one call. -/
theorem State.Inv.step (h : s.Inv abi regs) {r : Round Sysnum} (hsound : s.Sound abi r) :
    (s.step abi r).Inv abi regs ∧
      ((s.step abi r).stage = .finished ∨
        (s.step abi r).tracee.history.executed.length =
          s.tracee.history.executed.length + 1) := by
  have hentered : ∀ s' : State Sysnum, s' = s.enterStop abi r.entry → s.stage = .atEntry →
      s'.InKernel abi regs →
      s'.tracee.history.executed.length = s.tracee.history.executed.length + 1 →
      (s.step abi r).Inv abi regs ∧ ((s.step abi r).stage = .finished ∨
        (s.step abi r).tracee.history.executed.length =
          s.tracee.history.executed.length + 1) := by
    intro s' hs' hstage hin hlength
    subst hs'
    have hstep : s.step abi r = (s.enterStop abi r.entry).exitStop abi r.result r.exit := by
      rw [State.step, if_neg (not_not.2 hstage)]
      dsimp only
      rw [hin.stage]
    obtain ⟨hchained, hsame⟩ | ⟨hfinished, hended⟩ :=
      exitStop_inKernel hin ((hsound hstage).2 hin.stage) r.result
    · rw [hstep]
      exact ⟨.chained hchained, .inr (by rw [hsame, hlength])⟩
    · rw [hstep]
      exact ⟨.finished hfinished hended, .inl hfinished⟩
  cases h with
  | guest h =>
    subst h
    obtain ⟨hin, hlength⟩ | ⟨hfinished, hended⟩ :=
      enterStop_guest abi (hsound rfl).1
    · exact hentered _ rfl rfl hin hlength
    · have hstep : (State.start regs).step abi r =
          ((State.start regs).enterStop abi r.entry).leave r.result := by
        have hentry : (State.start regs : State Sysnum).stage = .atEntry := rfl
        rw [State.step, if_neg (not_not.2 hentry)]
        dsimp only
        rw [hfinished]
      rw [hstep]
      exact ⟨.finished hfinished (hended r.result), .inl hfinished⟩
  | chained h =>
    obtain ⟨hin, hlength⟩ := enterStop_chained (e := r.entry) h
    exact hentered _ rfl h.stage hin hlength
  | finished hstage h =>
    rw [step_finished hstage]
    exact ⟨.finished hstage h, .inl hstage⟩

/-- Each system call of a run that has not ended has executed one call. -/
theorem executed_of_run (h : s.Inv abi regs) {rounds : List (Round Sysnum)}
    (hsound : AllSteps (State.step abi) (State.Sound abi) s rounds) :
    (rounds.foldl (State.step abi) s).stage = .finished ∨
      (rounds.foldl (State.step abi) s).tracee.history.executed.length =
        s.tracee.history.executed.length + rounds.length := by
  induction rounds generalizing s with
  | nil => exact .inr rfl
  | cons r rs ih =>
    obtain ⟨hnext, hlength⟩ := h.step hsound.1
    rw [List.foldl_cons, List.length_cons]
    obtain hfinished | hlength := hlength
    · left
      have hstill : ∀ rs : List (Round Sysnum),
          rs.foldl (State.step abi) (s.step abi r) = s.step abi r := by
        intro rs
        induction rs with
        | nil => rfl
        | cons r' rs ih => rw [List.foldl_cons, step_finished hfinished, ih]
      rw [hstill, hfinished]
    · obtain hfinished | htotal := ih hnext hsound.2
      · exact .inl hfinished
      · right
        rw [htotal, hlength]
        omega

/-- What the invariant says of the record. -/
theorem State.Inv.record (h : s.Inv abi regs) :
    s.stage ≠ .aborted ∧
      s.tracee.history.executed.tail <+:
        s.tracee.history.registered.map (ChainedSyscall.kernelCall abi) ∧
      (s.stage = .finished → s.Ended abi regs) ∧
      (s.stage = .finished ∨
        s.tracee.history.executed.length ≤ s.tracee.history.registered.length) := by
  cases h with
  | guest h =>
    subst h
    exact ⟨(fun h => nomatch h), List.nil_prefix, (fun h => nomatch h), .inr (Nat.le_refl 0)⟩
  | chained h =>
    obtain ⟨done, first, call, hbooks, hexecuted, -⟩ := h.books
    rw [h.stage, hexecuted, hbooks.registered]
    refine ⟨(fun h => nomatch h), ?_, (fun h => nomatch h), .inr ?_⟩
    · rw [List.tail_cons, List.append_assoc, List.map_append]
      exact List.prefix_append _ _
    · simp only [List.length_cons, List.length_map, List.length_append, List.length_nil]
      omega
  | finished hstage h =>
    rw [hstage]
    refine ⟨(fun h => nomatch h), ?_, fun _ => h, .inl rfl⟩
    rewrite [h.executed]
    exact List.prefix_rfl

/-- The chains of a run: calls are executed once and in the order in which they were registered,
nothing is left when the guest is back, and it is back before there are more system calls than
registered ones and its own. -/
theorem chain_of_run (abi : Sysnums Sysnum) (regs : Regs) (rounds : List (Round Sysnum))
    (h : AllSteps (State.step abi) (State.Sound abi) (State.start regs) rounds) :
    (∀ s ∈ states (State.step abi) (State.start regs) rounds,
      s.stage ≠ .aborted ∧
        s.tracee.history.executed.tail <+:
          s.tracee.history.registered.map (ChainedSyscall.kernelCall abi) ∧
        (s.stage = .finished → s.Ended abi regs)) ∧
      ((rounds.foldl (State.step abi) (State.start regs)).stage = .finished ∨
        rounds.length ≤
          (rounds.foldl (State.step abi) (State.start regs)).tracee.history.registered.length) := by
  have hstart : (State.start regs : State Sysnum).Inv abi regs := .guest rfl
  have hinv : ∀ s ∈ states (State.step abi) (State.start regs) rounds, s.Inv abi regs :=
    invariant_states (fun s r hsound hs => (hs.step hsound).1) hstart h
  constructor
  · intro s hs
    obtain ⟨hrunning, horder, hended, -⟩ := (hinv s hs).record
    exact ⟨hrunning, horder, hended⟩
  · obtain ⟨-, -, -, hcount⟩ := (hinv _ (foldl_mem_states _ _ _)).record
    obtain hfinished | hlength := executed_of_run hstart h
    · exact .inl hfinished
    · apply hcount.imp_right
      intro hle
      rw [hlength] at hle
      exact (Nat.zero_add _).symm.trans_le hle

/-- An ABI whose numbers are those of the kernel; `brk` is 214. -/
def plainAbi : Sysnums UInt64 := ⟨id, id, fun number => number == 214⟩

/-- A thread at address 0x1000. -/
def plainRegs : Regs := ⟨fun _ => 0, 0x1000⟩

/-- `F_DUPFD_CLOEXEC` on an old kernel: the result 7 stays, and a call sets the flag. -/
def dupfdRounds : List (Round UInt64) :=
  [⟨⟨[], none, .syscall, false⟩, 7, [.register ⟨25, ![7, 2, 1, 0, 0, 0]⟩, .force 7]⟩,
    ⟨⟨[], none, .syscall, false⟩, 0, []⟩]

theorem chain_of_run_dupfd :
    (∀ s ∈ states (State.step plainAbi) (State.start plainRegs) dupfdRounds,
      s.stage ≠ .aborted ∧
        s.tracee.history.executed.tail <+:
          s.tracee.history.registered.map (ChainedSyscall.kernelCall plainAbi) ∧
        (s.stage = .finished → s.Ended plainAbi plainRegs)) ∧
      ((dupfdRounds.foldl (State.step plainAbi) (State.start plainRegs)).stage = .finished ∨
        dupfdRounds.length ≤ (dupfdRounds.foldl (State.step plainAbi)
          (State.start plainRegs)).tracee.history.registered.length) := by
  apply chain_of_run
  have hentry : ∀ s : State UInt64, s.EntrySound ⟨[], none, .syscall, false⟩ := by
    intro s
    exact ⟨fun _ => Nat.zero_le 1, fun _ h => nomatch h⟩
  refine ⟨fun _ => ⟨hentry _, fun _ => ⟨fun _ => ⟨by decide, fun h => absurd h (by decide)⟩, ?_⟩⟩,
    fun _ => ⟨hentry _, fun _ => ⟨fun _ => ⟨by decide, fun h => absurd h (by decide)⟩, ?_⟩⟩,
    trivial⟩
  · intro _ hnone
    exact absurd hnone (by decide)
  · intro hnone
    cases hnone

/-- `socket` with a type among whose bits is no flag to be emulated: the handler forces the
result of a call without a chain, and the flag stays. -/
theorem forced_without_chain :
    ¬ ∀ (regs : Regs) (rounds : List (Round UInt64)),
      (∀ s ∈ states (State.step plainAbi) (State.start regs) rounds,
        s.stage ≠ .aborted ∧
          s.tracee.history.executed.tail <+:
            s.tracee.history.registered.map (ChainedSyscall.kernelCall plainAbi) ∧
          (s.stage = .finished → s.Ended plainAbi regs)) ∧
        ((rounds.foldl (State.step plainAbi) (State.start regs)).stage = .finished ∨
          rounds.length ≤ (rounds.foldl (State.step plainAbi)
            (State.start regs)).tracee.history.registered.length) := by
  intro h
  have hlast := ((h plainRegs [⟨⟨[], none, .syscall, false⟩, 7, [.force 7]⟩]).1 _
    (foldl_mem_states _ _ _)).2.2 rfl
  have hforce := hlast.noForce
  cases hforce

end NeoProot.Chain
