import NeoProot.Extension.HiddenFiles
import NeoProot.Syscall.ChainRuns
import Mathlib.Tactic.SplitIfs

/-!
# Directories without hidden files

A call of the guest ends when the kernel has written a block with a visible entry, has failed or
is at the end of the directory; until then it is made again and again, as a call of the chain.
The guest gets the visible entries of all that the kernel has written.

## Main definitions

* `Answer` — what the kernel does in a call.
* `serve` — a call of the guest, with those that are made in its name.
* `GuestCall.received` — the bytes that the guest gets.
* `received_run` — what a run of calls gets.
-/

namespace NeoProot.HiddenFiles
open Mem PagedMemory Chain

/-! ### A call of the guest -/

/-- What the kernel does: it writes some entries, or it fails; no error is the end of the
directory. -/
inductive Answer (kind : Kind)
  | block (rs : List (DirRecord kind)) (hne : rs ≠ []) (hfits : (bytesOf rs).length < 2 ^ 31)
  | error (errno : Fin 4096)

/-- The kernel in a call with this buffer: its result, the memory, and the entries. -/
def Answer.execute {kind : Kind} (m : TraceeMemory) (a : ℕ) :
    Answer kind → UInt64 × TraceeMemory × List (DirRecord kind)
  | .block rs _ _ =>
    if m.Mapped a (bytesOf rs).length then
      (UInt64.ofNat (bytesOf rs).length, m.put a (bytesOf rs), rs)
    -- `EFAULT`
    else (errorResult 14, m, [])
  | .error errno => (errorResult errno, m, [])

section

variable {Sysnum : Type*} [DecidableEq Sysnum]

/-- An entry stop at which nothing is translated. -/
def quietEntry : Entry Sysnum := ⟨[], none, .syscall, false⟩

/-- The thread and its memory behind some calls, and what the kernel did in them. -/
structure Served (Sysnum : Type*) (kind : Kind) where
  state : State Sysnum
  memory : TraceeMemory
  executed : List (UInt64 × List (DirRecord kind))

variable (numbers : Numbers Sysnum) (access : Access) (dir : Directory) {kind : Kind}

/-- A call of the guest, and those that are chained to it, as far as the kernel has got. -/
def serve : State Sysnum → TraceeMemory → List (Answer kind) → Served Sysnum kind
  | s, m, [] => ⟨s, m, []⟩
  | s, m, a :: as =>
    if s.stage ≠ .atEntry then ⟨s, m, []⟩
    else
      let s := s.enterStop numbers.abi quietEntry
      let (result, m, rs) := a.execute m (s.process.regs.reg (.sysarg 1)).toNat
      let (m, requests) := hiddenFilesCallback numbers access dir s.tracee.syscalls.isSome
        s.tracee.original (s.atExit result 0).current m
      let rest := serve (s.exitStop numbers.abi result requests) m as
      { rest with executed := (result, rs) :: rest.executed }

end

/-! ### The record of a chain -/

section

variable {Sysnum : Type*} {abi : Sysnums Sysnum} (t : Tracee Sysnum)

theorem pokeReg_history (r : Reg) (value : UInt64) : (t.pokeReg r value).history = t.history := by
  rw [Tracee.pokeReg]
  split <;> rfl

theorem pokeSysargs_history (values : Fin 6 → UInt64) :
    (t.pokeSysargs values).history = t.history := by
  have hfold : ∀ (is : List (Fin 6)) (t : Tracee Sysnum),
      (is.foldl (fun t i => t.pokeReg (.sysarg i) (values i)) t).history = t.history := by
    intro is
    induction is with
    | nil => exact fun _ => rfl
    | cons i is ih =>
      intro t
      rw [List.foldl_cons, ih, pokeReg_history]
  exact hfold _ t

theorem insertNext_history : (t.insertNext abi).history = t.history := by
  rw [Tracee.insertNext]
  cases hsyscalls : t.syscalls with
  | none => rfl
  | some queue =>
    cases queue with
    | nil =>
      simp only [Tracee.chainNextSyscall]
      split
      · exact pokeReg_history _ _ _
      · rfl
    | cons call rest =>
      have hpointer : ∀ (t : Tracee Sysnum) value,
          (t.pokeInstrPointer value).history = t.history := by
        intro t value
        rw [Tracee.pokeInstrPointer]
        split <;> rfl
      simp only [Tracee.chainNextSyscall]
      rw [hpointer, pokeReg_history, pokeSysargs_history]

theorem pushSpecificRegs_history (p : Process) (includingSysnum refused : Bool) :
    (t.pushSpecificRegs p includingSysnum refused).2.1.history = t.history := by
  simp only [Tracee.pushSpecificRegs]
  split_ifs <;> rfl

/-- A quiet entry stop executes a call with the registers that are there. -/
theorem enterStop_quiet (abi : Sysnums Sysnum) (s : State Sysnum) :
    (s.enterStop abi quietEntry).process.regs = s.process.regs ∧
      (s.enterStop abi quietEntry).stage = .inKernel ∧
      ∃ call, (s.enterStop abi quietEntry).tracee.history =
        { s.tracee.history with executed := s.tracee.history.executed ++ [call] } := by
  cases hsyscalls : s.tracee.syscalls with
  | none =>
    have henter : s.enterStop abi quietEntry = s.restart
        ({ s.tracee with current := s.process.regs, restoreOriginalRegs := false } :
          Tracee Sysnum).saveOriginal s.process .syscall := by
      simp only [State.enterStop, Tracee.translateEntry, hsyscalls]
      rfl
    rw [henter]
    exact ⟨rfl, rfl, _, rfl⟩
  | some queue =>
    have henter : s.enterStop abi quietEntry = s.restart
        { s.tracee with current := s.process.regs, restoreOriginalRegs := false } s.process
        .syscall := by
      cases hchanged : s.tracee.regsWereChanged with
      | true =>
        simp only [State.enterStop, Tracee.translateEntry, hsyscalls, Tracee.pushSpecificRegs,
          hchanged, Bool.not_true, Bool.false_eq_true, if_false, Option.isNone_some, false_and]
      | false =>
        simp only [State.enterStop, Tracee.translateEntry, hsyscalls, Tracee.pushSpecificRegs,
          hchanged, Bool.not_false, if_true]
    rw [henter]
    exact ⟨rfl, rfl, _, rfl⟩

/-- The record behind an exit stop is that of its handlers. -/
theorem exitStop_history {s : State Sysnum} {result : UInt64} {requests : List (Request Sysnum)}
    (hfaulty : s.tracee.workaround ≠ .processFaultyCall) {t : Tracee Sysnum}
    (ht : State.exitHandlers abi (s.atExit result (State.answer result requests)) requests =
      some t) : (s.exitStop abi result requests).tracee.history = t.history := by
  have hresume : ∀ (s : State Sysnum) (t : Tracee Sysnum) p,
      (s.resume t p).tracee.history = t.history := by
    intro s t p
    rw [State.resume]
    split <;> rfl
  have hlast : (if s.tracee.syscalls.isSome ∧ s.tracee.workaround = .processFaultyCall then result
      else State.answer result requests) = State.answer result requests :=
    if_neg fun h => hfaulty h.2
  have hexit : s.exitStop abi result requests =
      s.resume ((t.insertNext abi).pushSpecificRegs
        { s.process with regs := (s.atExit result 0).current } false false).2.1
        ((t.insertNext abi).pushSpecificRegs
          { s.process with regs := (s.atExit result 0).current } false false).2.2 := by
    rw [exitStop_eq hlast, ht]
  rw [hexit, hresume, pushSpecificRegs_history, insertNext_history]

/-- Handlers that only poke, or ask for one call. -/
inductive Plain : List (Request Sysnum) → Prop
  | none : Plain []
  | poke (value : UInt64) : Plain [.poke sysargResult value]
  | register (call : ChainedSyscall Sysnum) : Plain [.register call]

/-- The calls that are asked for. -/
def asked : List (Request Sysnum) → List (ChainedSyscall Sysnum)
  | [.register call] => [call]
  | _ => []

/-- Plain handlers add what they ask for to the record. -/
theorem exitHandlers_plain (abi : Sysnums Sysnum) {requests : List (Request Sysnum)}
    (hplain : Plain requests) (hfaulty : t.workaround ≠ .processFaultyCall) :
    ∃ t', State.exitHandlers abi t requests = some t' ∧
      t'.history = { t.history with registered := t.history.registered ++ asked requests } := by
  have hhandle : ∀ t : Tracee Sysnum, ∃ t', t.handle abi requests = some t' ∧
      t'.history = { t.history with registered := t.history.registered ++ asked requests } := by
    intro t
    cases hplain with
    | none => exact ⟨t, rfl, by rw [asked, List.append_nil]; exact nofun⟩
    | poke value =>
      refine ⟨t.pokeReg sysargResult value, rfl, ?_⟩
      rw [pokeReg_history, asked, List.append_nil]
      exact nofun
    | register call => exact ⟨t.registerChainedSyscall call, rfl, rfl⟩
  rw [State.exitHandlers]
  split
  · exact hhandle _
  · exact hhandle t

end

/-! ### Between the calls of a chain -/

section

variable {Sysnum : Type*} {abi : Sysnums Sysnum} {regs : Regs} {c : ChainedSyscall Sysnum}
  {s : State Sysnum}

/-- The thread is about to make the call of the guest, or to repeat it: `c` is all that has been
asked for, and nothing else waits. -/
structure Waiting (abi : Sysnums Sysnum) (regs : Regs) (c : ChainedSyscall Sysnum)
    (s : State Sysnum) : Prop where
  inv : s.Inv abi regs
  stage : s.stage = .atEntry
  forced : s.tracee.history.forced = none
  registered : ∀ call ∈ s.tracee.history.registered, call = c
  count : s.tracee.history.executed.length = s.tracee.history.registered.length

theorem waiting_start : Waiting abi regs c (State.start regs) :=
  ⟨.guest rfl, rfl, rfl, fun _ h => absurd h List.not_mem_nil, rfl⟩

/-- The registers of the call that the thread is about to make. -/
theorem Waiting.sysarg (h : Waiting abi regs c s) {i : Fin 6}
    (hi : c.sysargs i = regs.reg (.sysarg i)) :
    s.process.regs.reg (.sysarg i) = regs.reg (.sysarg i) := by
  cases h.inv with
  | guest hstart =>
    rw [hstart]
    rfl
  | chained hchained =>
    obtain ⟨done, first, call, hbooks, -, hcall⟩ := hchained.books
    have hsame : call = c := h.registered call (by simp [hbooks.registered])
    have hargs := congrFun (congrArg Prod.snd hcall) i
    rw [hsame] at hargs
    exact hargs.trans hi
  | finished hfinished => exact absurd (h.stage.symm.trans hfinished) nofun

/-- The thread in the call. -/
theorem Waiting.inKernel (h : Waiting abi regs c s) :
    (s.enterStop abi quietEntry).InKernel abi regs := by
  have hstage := (enterStop_quiet abi s).2.1
  cases h.inv with
  | guest hstart =>
    subst hstart
    have hsound : (State.start regs : State Sysnum).EntrySound quietEntry :=
      ⟨fun _ => Nat.zero_le 1, fun _ h => nomatch h⟩
    obtain ⟨hin, -⟩ | ⟨hfinished, -⟩ := enterStop_guest abi hsound
    · exact hin
    · exact absurd (hstage.symm.trans hfinished) nofun
  | chained hchained => exact (enterStop_chained hchained).1
  | finished hfinished => exact absurd (h.stage.symm.trans hfinished) nofun

theorem Plain.restarts {requests : List (Request Sysnum)} (h : Plain requests) :
    requests.countP Request.restarts = 0 ∧ requests.countP Request.forces = 0 := by
  cases h <;> exact ⟨rfl, rfl⟩

/-- A call whose exit has plain handlers: it is repeated if they ask for that, and the guest goes
on with their answer if not. -/
theorem Waiting.exitStop (h : Waiting abi regs c s) (result : UInt64)
    {requests : List (Request Sysnum)} (hplain : Plain requests) :
    (asked requests = [c] → Waiting abi regs c
      ((s.enterStop abi quietEntry).exitStop abi result requests)) ∧
    (asked requests = [] →
      ((s.enterStop abi quietEntry).exitStop abi result requests).stage = .finished ∧
      ((s.enterStop abi quietEntry).exitStop abi result requests).process.regs.reg sysargResult =
        State.answer result requests ∧
      ∀ r, r ≠ sysargResult →
        ((s.enterStop abi quietEntry).exitStop abi result requests).process.regs.reg r =
          regs.reg r) := by
  obtain ⟨-, -, call, hentered⟩ := enterStop_quiet abi s
  have hin := h.inKernel
  obtain ⟨done, first, hbooks, hexecuted⟩ := hin.books
  have hcount := h.count
  have hregistered := hbooks.registered
  rw [hentered] at hregistered hexecuted
  -- nothing waits behind the call
  have hempty : (s.enterStop abi quietEntry).tracee.queue.length = 0 := by
    have hlength := congrArg List.length hregistered
    have hlength' := congrArg List.length hexecuted
    simp only [List.length_append, List.length_cons, List.length_map, List.length_nil]
      at hlength hlength'
    omega
  have hfaulty : (s.enterStop abi quietEntry).tracee.workaround ≠ .processFaultyCall := by
    intro hworkaround
    have hpos := hin.faulty hworkaround
    omega
  have hforce : (s.enterStop abi quietEntry).tracee.forceFinalResult = false := by
    have hforced := hbooks.forced
    rw [hentered] at hforced
    by_contra hno
    rw [if_pos (Bool.eq_true_of_not_eq_false hno)] at hforced
    exact absurd (h.forced.symm.trans hforced) nofun
  have hsound : (s.enterStop abi quietEntry).ExitSound requests := by
    refine ⟨fun _ => ⟨?_, ?_⟩, fun _ _ => ⟨hforce, hplain.restarts.2⟩⟩
    · rw [hplain.restarts.1]
      exact Nat.zero_le 1
    · intro hone
      rw [hplain.restarts.1] at hone
      cases hone
  obtain ⟨t, ht, hthistory⟩ := exitHandlers_plain
    ((s.enterStop abi quietEntry).atExit result (State.answer result requests)) abi hplain hfaulty
  have hhistory : ((s.enterStop abi quietEntry).exitStop abi result requests).tracee.history =
      ⟨s.tracee.history.registered ++ asked requests, s.tracee.history.executed ++ [call], none,
        State.answer result requests⟩ := by
    rw [exitStop_history hfaulty ht, hthistory]
    have hatExit : ((s.enterStop abi quietEntry).atExit result
        (State.answer result requests)).history =
          { (s.enterStop abi quietEntry).tracee.history with
            last := State.answer result requests } := rfl
    rw [hatExit, hentered, ← h.forced]
  have hcalls : (s.tracee.history.executed ++ [call]).length =
      s.tracee.history.registered.length + 1 := by
    rw [List.length_append, List.length_singleton, hcount]
  obtain ⟨hchained, -⟩ | ⟨hfinished, hended⟩ := exitStop_inKernel hin hsound result
  · constructor
    · intro hasked
      refine ⟨.chained hchained, hchained.stage, by rw [hhistory], ?_, ?_⟩
      · intro call' hcall'
        rw [hhistory, hasked, List.mem_append] at hcall'
        obtain hcall' | hcall' := hcall'
        · exact h.registered call' hcall'
        · exact List.mem_singleton.1 hcall'
      · rw [hhistory, hasked]
        simpa using hcalls
    · -- a call that is made has been asked for
      intro hasked
      obtain ⟨done', first', call', hbooks', hexecuted', -⟩ := hchained.books
      have hregistered' := hbooks'.registered
      rw [hhistory, hasked, List.append_nil] at hregistered'
      rw [hhistory] at hexecuted'
      have hlength := congrArg List.length hregistered'
      have hlength' := congrArg List.length hexecuted'
      rw [hcalls] at hlength'
      simp only [List.length_append, List.length_cons, List.length_map, List.length_nil]
        at hlength hlength'
      omega
  · constructor
    · -- what has been asked for is made
      intro hasked
      have hexecuted' := hended.executed
      rw [hhistory, hasked] at hexecuted'
      have hlength := congrArg List.length hexecuted'
      rw [List.length_tail, hcalls, List.length_map, List.length_append,
        List.length_singleton] at hlength
      omega
    · intro _
      have hresult := hended.result
      rw [hhistory] at hresult
      exact ⟨hfinished, hresult, hended.others⟩

end

/-! ### What the guest gets -/

section

variable {Sysnum : Type*} {kind : Kind}

/-- The bytes that the guest gets in its buffer, when it is back. -/
def Served.received (served : Served Sysnum kind) (buffer : ℕ) : List UInt8 :=
  let result := served.state.process.regs.reg sysargResult
  if served.state.stage = .finished ∧ ¬ NotPositive result then
    served.memory.values buffer result.toNat
  else []

/-- The entries that the kernel wrote, for the call of the guest and for those in its name. -/
def Served.delivered (served : Served Sysnum kind) : List (DirRecord kind) :=
  served.executed.flatMap Prod.snd

/-- The guest gets some of the entries, the end of the directory only from the kernel, and its
registers. -/
structure Served.Exact (served : Served Sysnum kind) (regs : Regs) (rs : List (DirRecord kind)) :
    Prop where
  received : served.received (regs.reg (.sysarg 1)).toNat = bytesOf rs
  atEnd : served.state.stage = .finished → served.state.process.regs.reg sysargResult = 0 →
    served.executed.getLast?.map Prod.fst = some 0
  others : served.state.stage = .finished → ∀ r, r ≠ sysargResult →
    served.state.process.regs.reg r = regs.reg r

variable [DecidableEq Sysnum] {numbers : Numbers Sysnum} {access : Access} {dir : Directory}
  {regs : Regs} {s : State Sysnum} {m : TraceeMemory}

theorem serve_finished (hstage : s.stage = .finished) (as : List (Answer kind)) :
    serve numbers access dir s m as = ⟨s, m, []⟩ := by
  cases as with
  | nil => rfl
  | cons a as =>
    rw [serve, if_pos]
    rw [hstage]
    exact nofun

/-- The entries that the guest is to get: the visible ones, where the directory is looked at. -/
def due (dir : Directory) (regs : Regs) (rs : List (DirRecord kind)) :
    List (DirRecord kind) :=
  if Looked dir (regs.reg (.sysarg 2)) then rs.filter DirRecord.visible else rs

/-- What the kernel does. -/
theorem Answer.execute_cases (a : Answer kind) (m : TraceeMemory) (buffer : ℕ) :
    (∃ errno, a.execute m buffer = (errorResult errno, m, [])) ∨
      ∃ rs, rs ≠ [] ∧ (bytesOf rs).length < 2 ^ 31 ∧ m.Mapped buffer (bytesOf rs).length ∧
        a.execute m buffer =
          (UInt64.ofNat (bytesOf rs).length, m.put buffer (bytesOf rs), rs) := by
  cases a with
  | block rs hne hfits =>
    rw [Answer.execute]
    by_cases hmapped : m.Mapped buffer (bytesOf rs).length
    · rw [if_pos hmapped]
      exact .inr ⟨rs, hne, hfits, hmapped, rfl⟩
    · rw [if_neg hmapped]
      exact .inl ⟨14, rfl⟩
  | error errno => exact .inl ⟨errno, rfl⟩

/-- The registers at the exit of a call. -/
structure AtExit (regs current : Regs) (result : UInt64) : Prop where
  result : current.reg sysargResult = result
  buffer : current.reg (.sysarg 1) = regs.reg (.sysarg 1)
  count : current.reg (.sysarg 2) = regs.reg (.sysarg 2)

omit [DecidableEq Sysnum] in
theorem atExit_reg (s : State Sysnum) (result : UInt64) (r : Reg) :
    (s.atExit result 0).current.reg r =
      if r = sysargResult then result else s.process.regs.reg r :=
  Function.update_apply _ _ _ _

/-- One of the calls: what the kernel does, what the extension makes of it, and the rest. -/
theorem serve_cons (h : Waiting numbers.abi regs (repeated numbers kind regs regs) s)
    {a : Answer kind} (as : List (Answer kind)) {result : UInt64} {m' : TraceeMemory}
    {rs : List (DirRecord kind)}
    (hexecute : a.execute m (regs.reg (.sysarg 1)).toNat = (result, m', rs)) :
    ∃ chained current, AtExit regs current result ∧
      serve numbers access dir s m (a :: as) =
        let (m'', requests) := hiddenFilesCallback numbers access dir chained regs current m'
        let rest := serve numbers access dir
          ((s.enterStop numbers.abi quietEntry).exitStop numbers.abi result requests) m'' as
        { rest with executed := (result, rs) :: rest.executed } := by
  have hregs := (enterStop_quiet numbers.abi s).1
  refine ⟨(s.enterStop numbers.abi quietEntry).tracee.syscalls.isSome,
    ((s.enterStop numbers.abi quietEntry).atExit result 0).current, ⟨?_, ?_, ?_⟩, ?_⟩
  · rw [atExit_reg, if_pos rfl]
  · rw [atExit_reg, if_neg (by decide), hregs, h.sysarg rfl]
  · rw [atExit_reg, if_neg (by decide), hregs, h.sysarg rfl]
  · rw [serve, if_neg (not_not.2 h.stage)]
    dsimp only
    rw [hregs, h.sysarg rfl, hexecute, h.inKernel.original]

/-- The last of the calls: the guest gets the answer of its handlers. -/
theorem serve_last (h : Waiting numbers.abi regs (repeated numbers kind regs regs) s)
    {result : UInt64} {requests : List (Request Sysnum)} (hplain : Plain requests)
    (hasked : asked requests = []) (m : TraceeMemory) (as : List (Answer kind)) :
    ∃ s' : State Sysnum, s'.stage = .finished ∧
      s'.process.regs.reg sysargResult = State.answer result requests ∧
      (∀ r, r ≠ sysargResult → s'.process.regs.reg r = regs.reg r) ∧
      serve numbers access dir
        ((s.enterStop numbers.abi quietEntry).exitStop numbers.abi result requests) m as =
          ⟨s', m, []⟩ := by
  obtain ⟨hstage, hresult, hothers⟩ := (h.exitStop result hplain).2 hasked
  exact ⟨_, hstage, hresult, hothers, serve_finished hstage as⟩

theorem not_notPositive {rs : List (DirRecord kind)} (hne : rs ≠ [])
    (hfits : (bytesOf rs).length < 2 ^ 31) :
    (UInt64.ofNat (bytesOf rs).length).toNat = (bytesOf rs).length ∧
      ¬ NotPositive (UInt64.ofNat (bytesOf rs).length) := by
  have hpos : 0 < (bytesOf rs).length := List.length_pos_iff.2 (mt bytesOf_eq_nil_iff.1 hne)
  have htoNat : (UInt64.ofNat (bytesOf rs).length).toNat = (bytesOf rs).length := by
    rw [UInt64.toNat_ofNat']
    omega
  refine ⟨htoNat, ?_⟩
  rw [NotPositive, ← UInt64.toNat_inj, htoNat, UInt64.toNat_zero]
  omega

omit [DecidableEq Sysnum] in
/-- The guest is back with some entries in its buffer. -/
theorem Served.Exact.of_last {s' : State Sysnum} {m' : TraceeMemory}
    {rs rs' : List (DirRecord kind)} {result : UInt64} (hstage : s'.stage = .finished)
    (hne : rs ≠ []) (hfits : (bytesOf rs).length < 2 ^ 31)
    (hresult : s'.process.regs.reg sysargResult = UInt64.ofNat (bytesOf rs).length)
    (hothers : ∀ r, r ≠ sysargResult → s'.process.regs.reg r = regs.reg r)
    (hvalues : m'.values (regs.reg (.sysarg 1)).toNat (bytesOf rs).length = bytesOf rs) :
    (⟨s', m', [(result, rs')]⟩ : Served Sysnum kind).Exact regs rs := by
  obtain ⟨htoNat, hpositive⟩ := not_notPositive hne hfits
  rw [← hresult] at hpositive
  refine ⟨?_, fun _ hzero => absurd (.inl hzero) hpositive, fun _ => hothers⟩
  rw [Served.received, if_pos ⟨hstage, hpositive⟩, hresult, htoNat, hvalues]

omit [DecidableEq Sysnum] in
/-- A block of hidden entries in front of the others. -/
theorem Served.Exact.of_hidden (hlooked : Looked dir (regs.reg (.sysarg 2)))
    {rs : List (DirRecord kind)} (hnone : rs.filter DirRecord.visible = []) (result : UInt64)
    {rest : Served Sysnum kind} (h : rest.Exact regs (due dir regs rest.delivered)) :
    ({ rest with executed := (result, rs) :: rest.executed } : Served Sysnum kind).Exact regs
      (due dir regs
        ({ rest with executed := (result, rs) :: rest.executed } :
          Served Sysnum kind).delivered) := by
  have hdelivered : ({ rest with executed := (result, rs) :: rest.executed } :
      Served Sysnum kind).delivered = rs ++ rest.delivered := List.flatMap_cons
  have hdue : due dir regs (rs ++ rest.delivered) = due dir regs rest.delivered := by
    rw [due, due, if_pos hlooked, if_pos hlooked, List.filter_append, hnone, List.nil_append]
  rw [hdelivered, hdue]
  refine ⟨h.received, fun hstage hzero => ?_, h.others⟩
  have hlast := h.atEnd hstage hzero
  obtain ⟨last, hsome, hresult⟩ := Option.map_eq_some_iff.1 hlast
  change (((result, rs) :: rest.executed).getLast?).map Prod.fst = some 0
  rw [List.getLast?_cons, hsome, Option.getD_some, Option.map_some, hresult]

/-- A call of the guest, from any of the calls in its name on. -/
theorem serve_exact (hkind : numbers.kind regs = some kind)
    (h : Waiting numbers.abi regs (repeated numbers kind regs regs) s) (as : List (Answer kind)) :
    (serve numbers access dir s m as).Exact regs
      (due dir regs (serve numbers access dir s m as).delivered) := by
  induction as generalizing s m with
  | nil =>
    have hstage : ¬ s.stage = .finished := by
      rw [h.stage]
      exact nofun
    refine ⟨?_, fun hfinished => absurd hfinished hstage, fun hfinished => absurd hfinished hstage⟩
    rw [serve, Served.received, if_neg fun hback => hstage hback.1, due]
    split <;> rfl
  | cons a as ih =>
    obtain ⟨errno, hexecute⟩ | ⟨rs, hne, hfits, hmapped, hexecute⟩ :=
      a.execute_cases m (regs.reg (.sysarg 1)).toNat
    · obtain ⟨chained, current, hcurrent, hserve⟩ :=
        @serve_cons _ kind _ numbers access dir regs s m h a as _ _ _ hexecute
      obtain ⟨hmemory, hrequests⟩ := @hiddenFilesCallback_error _ _ numbers access dir regs current
        m kind chained errno hkind hcurrent.result
      obtain ⟨requests, heq, hplain, hasked, hanswer⟩ : ∃ requests,
          (hiddenFilesCallback numbers access dir chained regs current m).2 = requests ∧
            Plain requests ∧ asked requests = [] ∧
              State.answer (errorResult errno) requests = errorResult errno := by
        obtain hnone | hpoke := hrequests
        · exact ⟨_, hnone, .none, rfl, rfl⟩
        · exact ⟨_, hpoke, .poke _, rfl, rfl⟩
      obtain ⟨s', hstage, hresult, hothers, hlast⟩ :=
        @serve_last _ kind _ numbers access dir regs s h (errorResult errno) _ hplain hasked m as
      have hserved : serve numbers access dir s m (a :: as) =
          ⟨s', m, [(errorResult errno, [])]⟩ := by
        rw [hserve]
        dsimp only
        rw [hmemory, heq, hlast]
      rw [hanswer] at hresult
      rw [hserved]
      refine ⟨?_, fun _ hzero => ?_, fun _ => hothers⟩
      · rw [Served.received, if_neg, due]
        · split <;> rfl
        · rw [hresult]
          exact fun hback => hback.2 (notPositive_errorResult errno)
      · rw [← hzero, hresult]
        rfl
    · obtain ⟨chained, current, hcurrent, hserve⟩ :=
        @serve_cons _ kind _ numbers access dir regs s m h a as _ _ _ hexecute
      have hvalues : (m.put (regs.reg (.sysarg 1)).toNat (bytesOf rs)).values
          (regs.reg (.sysarg 1)).toNat (bytesOf rs).length = bytesOf rs := values_put
      by_cases hlooked : Looked dir (regs.reg (.sysarg 2))
      · have hcallback := @hiddenFilesCallback_block _ _ numbers access dir regs current
          (m.put (regs.reg (.sysarg 1)).toNat (bytesOf rs)) kind chained hkind
          (by rwa [hcurrent.count]) rs hne hfits hcurrent.result
          (by rw [hcurrent.buffer]; exact hmapped) (by rw [hcurrent.buffer]; exact hvalues)
        have hrepeated : repeated numbers kind regs current = repeated numbers kind regs regs := by
          rw [repeated, repeated, hcurrent.buffer, hcurrent.count]
        by_cases hnone : rs.filter DirRecord.visible = []
        · -- a block of hidden entries: the call is made again
          rw [if_pos hnone, hrepeated] at hcallback
          have hwaiting := (h.exitStop (UInt64.ofNat (bytesOf rs).length)
            (.register (repeated numbers kind regs regs))).1 rfl
          have hrest := ih (m := m.put (regs.reg (.sysarg 1)).toNat (bytesOf rs)) hwaiting
          rw [hserve, hcallback]
          exact .of_hidden hlooked hnone _ hrest
        · rw [if_neg hnone, hcurrent.buffer] at hcallback
          obtain ⟨s', hstage, hresult, hothers, hlast⟩ :=
            @serve_last _ kind _ numbers access dir regs s h (UInt64.ofNat (bytesOf rs).length) _
              (.poke (UInt64.ofNat (bytesOf (rs.filter DirRecord.visible)).length)) rfl
              ((m.put (regs.reg (.sysarg 1)).toNat (bytesOf rs)).put
                (regs.reg (.sysarg 1)).toNat (bytesOf (rs.filter DirRecord.visible))) as
          rw [hserve, hcallback]
          dsimp only
          rw [hlast, due, if_pos hlooked, Served.delivered]
          dsimp only
          rw [List.flatMap_cons, List.flatMap_nil, List.append_nil]
          exact .of_last hstage hnone ((length_bytesOf_filter_le rs).trans_lt hfits) hresult
            hothers values_put
      · have hcallback := @hiddenFilesCallback_not_looked _ _ numbers access dir regs current
          (m.put (regs.reg (.sysarg 1)).toNat (bytesOf rs)) kind chained hkind
          (by rw [hcurrent.result]; exact (not_notPositive hne hfits).2)
          (by rwa [hcurrent.count])
        obtain ⟨s', hstage, hresult, hothers, hlast⟩ :=
          @serve_last _ kind _ numbers access dir regs s h (UInt64.ofNat (bytesOf rs).length) []
            .none rfl (m.put (regs.reg (.sysarg 1)).toNat (bytesOf rs)) as
        rw [hserve, hcallback]
        dsimp only
        rw [hlast, due, if_neg hlooked, Served.delivered]
        dsimp only
        rw [List.flatMap_cons, List.flatMap_nil, List.append_nil]
        exact .of_last hstage hne hfits hresult hothers hvalues

end

/-! ### Runs -/

/-- A call of the guest: its directory, the memory and the registers that it is made with, and
what the kernel does. -/
structure GuestCall {Sysnum : Type*} [DecidableEq Sysnum] (numbers : Numbers Sysnum) where
  kind : Kind
  dir : Directory
  memory : TraceeMemory
  regs : Regs
  answers : List (Answer kind)
  kind_eq : numbers.kind regs = some kind

/-- An entry of either kind. -/
abbrev AnyRecord := (kind : Kind) × DirRecord kind

namespace GuestCall

variable {Sysnum : Type*} [DecidableEq Sysnum] {numbers : Numbers Sysnum}
  (call : GuestCall numbers) (access : Access)

/-- The call and those in its name. -/
def served : Served Sysnum call.kind :=
  serve numbers access call.dir (State.start call.regs) call.memory call.answers

/-- The bytes that the guest gets. -/
def received : List UInt8 :=
  (call.served access).received (call.regs.reg (.sysarg 1)).toNat

/-- The directory is looked at. -/
def IsLooked : Prop := Looked call.dir (call.regs.reg (.sysarg 2))

instance : Decidable call.IsLooked := inferInstanceAs (Decidable (Looked _ _))

/-- The entries that the kernel wrote. -/
def entries : List AnyRecord := (call.served access).delivered.map fun r => ⟨call.kind, r⟩

/-- Those that the guest is to get. -/
def dueEntries : List AnyRecord :=
  if call.IsLooked then (call.entries access).filter (·.2.visible) else call.entries access

theorem exact : (call.served access).Exact call.regs
    (due call.dir call.regs (call.served access).delivered) :=
  serve_exact call.kind_eq waiting_start call.answers

theorem received_eq : call.received access = (call.dueEntries access).flatMap (·.2.bytes) := by
  have hbytes : ∀ rs : List (DirRecord call.kind),
      (rs.map fun r => (⟨call.kind, r⟩ : AnyRecord)).flatMap (·.2.bytes) = bytesOf rs := by
    intro rs
    rw [List.flatMap_map]
    rfl
  rw [received, (call.exact access).received, dueEntries, due, entries]
  by_cases hlooked : Looked call.dir (call.regs.reg (.sysarg 2))
  · have hcall : call.IsLooked := hlooked
    rw [if_pos hlooked, if_pos hcall, List.filter_map, hbytes]
    rfl
  · have hcall : ¬ call.IsLooked := hlooked
    rw [if_neg hlooked, if_neg hcall, hbytes]

end GuestCall

/-- A run of calls: what the guest gets, when it is told that a directory has ended, and its
registers. -/
structure RunExact {Sysnum : Type*} [DecidableEq Sysnum] {numbers : Numbers Sysnum}
    (access : Access) (calls : List (GuestCall numbers)) : Prop where
  received : calls.flatMap (·.received access) =
    (calls.flatMap (·.dueEntries access)).flatMap (·.2.bytes)
  hidden : (∀ call ∈ calls, call.IsLooked) → calls.flatMap (·.received access) =
    ((calls.flatMap (·.entries access)).filter (·.2.visible)).flatMap (·.2.bytes)
  atEnd : ∀ call ∈ calls, (call.served access).state.stage = .finished →
    (call.served access).state.process.regs.reg sysargResult = 0 →
      (call.served access).executed.getLast?.map Prod.fst = some 0
  others : ∀ call ∈ calls, (call.served access).state.stage = .finished → ∀ r, r ≠ sysargResult →
    (call.served access).state.process.regs.reg r = call.regs.reg r

/-- **A filter that only hides**: the guest gets what the kernel wrote but for the hidden entries,
where a directory is looked at, and all of it elsewhere. -/
theorem received_run {Sysnum : Type*} [DecidableEq Sysnum] (numbers : Numbers Sysnum)
    (access : Access) (calls : List (GuestCall numbers)) : RunExact access calls := by
  have hreceived : calls.flatMap (·.received access) =
      (calls.flatMap (·.dueEntries access)).flatMap (·.2.bytes) := by
    rw [List.flatMap_assoc]
    exact List.flatMap_congr fun call _ => call.received_eq access
  refine ⟨hreceived, fun hlooked => ?_, fun call _ => (call.exact access).atEnd,
    fun call _ => (call.exact access).others⟩
  rw [hreceived, List.filter_flatMap]
  congr 1
  refine List.flatMap_congr fun call hcall => ?_
  rw [GuestCall.dueEntries, if_pos (hlooked call hcall)]

/-! ### A directory that is not looked at -/

/-- An entry with the name `.proot`. -/
def prootRecord : DirRecord .getdents64 where
  bytes := List.replicate 16 0 ++ [32, 0, 4] ++ hiddenPrefix ++ List.replicate 7 0
  name := hiddenPrefix
  aligned := by decide
  reclen_eq := by decide
  named := by decide
  noNul := by decide

/-- Two numbers. -/
def plainNumbers : Numbers UInt64 where
  abi := plainAbi
  number
    | .getdents => 78
    | .getdents64 => 217
  distinct := by decide

/-- The directory of another tree, with a hidden entry. -/
def outside : GuestCall plainNumbers where
  kind := .getdents64
  dir := ⟨some (str "/data/guest"), some (str "/sdcard")⟩
  memory := ⟨4096, fun _ => true, fun _ => 0, Mem.pageSize_4096_pos⟩
  regs := ⟨fun
    | .sysargNum => 217
    | .sysarg 1 => 8192
    | .sysarg 2 => 1024
    | _ => 3, 0x1000⟩
  answers := [.block [prootRecord] (by simp) (by decide)]
  kind_eq := rfl

/-- Its hidden entry is shown. -/
theorem outside_shown :
    ¬ ∀ access, outside.received access =
      ((outside.entries access).filter (·.2.visible)).flatMap (·.2.bytes) := by
  intro h
  have hentries : outside.entries ⟨true, true⟩ = [⟨.getdents64, prootRecord⟩] := rfl
  have hdue : outside.dueEntries ⟨true, true⟩ = outside.entries ⟨true, true⟩ :=
    if_neg (by decide)
  have hshown := h ⟨true, true⟩
  rw [outside.received_eq, hdue, hentries] at hshown
  exact absurd hshown (by decide)

end NeoProot.HiddenFiles
