import NeoProot.Tracee.Lowering
import NeoProot.Tracee.MemExact
import NeoProot.Execve.AoxpEdits

/-!
# What a lowered call asks for

A call asks the kernel for something: an old call for the same as a newer one with some of its
arguments fixed, and the calls that set times for the times at the place they name.  A call that
was lowered should ask for what it asked for before.

## Main definitions

* `request` — what a call asks for.
* `Tracee.Survives` — the registers that the rewriting leaves right.
* `lowering_keeps_iff` — the call that is made again asks for the same if and only if they are.
-/

namespace NeoProot.Lowering
open Chain (Reg Regs)
open Moves Mem PagedMemory

/-! ### Requests -/

/-- The times that a call sets. -/
inductive Times
  | now
  | unreadable
  | given (fields : List UInt64)
  deriving DecidableEq, Repr

/-- What a call asks for: a call of the newer kind with its arguments, times for a file, or
whether a descriptor is open. -/
inductive Request
  | call (sysnum : Sysnum) (args : List UInt64)
  | setTimes (dirfd path : UInt64) (times : Times) (flags : UInt64)
  | checkFd (fd : UInt64)
  deriving DecidableEq, Repr

/-- The times that stand at an address, in a structure of so many bytes. -/
def timesAt (m : TraceeMemory) (a : UInt64) (size : ℕ)
    (timens : List UInt8 → List UInt64) : Times :=
  if a = 0 then .now
  else if m.Mapped a.toNat size then .given (timens (m.values a.toNat size))
  else .unreadable

/-- A `struct timespec` for each time. -/
def timensOfTimespec (bytes : List UInt8) : List UInt64 :=
  [field bytes 0, field bytes 1, field bytes 2, field bytes 3]

/-- Which newer call a call is, and where it has the arguments of that call. -/
def meaning : Sysnum → Sysnum × List (Source Reg UInt64)
  | .prOpen => (.prOpenat, [.const atFdcwd, arg 0, arg 1, arg 2])
  | .prSymlink => (.prSymlinkat, [arg 0, .const atFdcwd, arg 1])
  | .prLink => (.prLinkat, [.const atFdcwd, arg 0, .const atFdcwd, arg 1, .const 0])
  | .prChmod => (.prFchmodat, [.const atFdcwd, arg 0, arg 1])
  | .prChown | .prChown32 => (.prFchownat, [.const atFdcwd, arg 0, arg 1, arg 2, .const 0])
  | .prLchown | .prLchown32 =>
    (.prFchownat, [.const atFdcwd, arg 0, arg 1, arg 2, .const atSymlinkNofollow])
  | .prUnlink => (.prUnlinkat, [.const atFdcwd, arg 0, .const 0])
  | .prRmdir => (.prUnlinkat, [.const atFdcwd, arg 0, .const atRemovedir])
  | .prStat => (.prNewfstatat, [.const atFdcwd, arg 0, arg 1, .const 0])
  | .prLstat => (.prNewfstatat, [.const atFdcwd, arg 0, arg 1, .const atSymlinkNofollow])
  | .prAccess => (.prFaccessat, [.const atFdcwd, arg 0, arg 1])
  | .prMkdir => (.prMkdirat, [.const atFdcwd, arg 0, arg 1])
  | .prRename => (.prRenameat, [.const atFdcwd, arg 0, .const atFdcwd, arg 1])
  | .prAccept => (.prAccept4, [arg 0, arg 1, arg 2, .const 0])
  | .prSend => (.prSendto, [arg 0, arg 1, arg 2, arg 3, .const 0, .const 0])
  | .prRecv => (.prRecvfrom, [arg 0, arg 1, arg 2, arg 3, .const 0, .const 0])
  | .prWaitpid => (.prWait4, [arg 0, arg 1, arg 2, .const 0])
  | .prPipe => (.prPipe2, [arg 0, .const 0])
  | .prDup2 => (.prDup3, [arg 0, arg 1, .const 0])
  | .prEpollWait => (.prEpollPwait, [arg 0, arg 1, arg 2, arg 3, .const 0, .const 0])
  | .prFaccessat2 => (.prFaccessat, [arg 0, arg 1, arg 2])
  | .prVoid => (.prVoid, [])
  | sysnum => (sysnum, ((List.finRange 6).take (arity sysnum)).map fun i => arg i)
where
  /-- How many arguments the kernel takes of one of the newer calls. -/
  arity : Sysnum → ℕ
    | .prPipe2 => 2
    | .prSymlinkat | .prUnlinkat | .prMkdirat | .prDup3 | .prFchmodat | .prFaccessat => 3
    | .prLinkat | .prFchownat => 5
    | .prSendto | .prRecvfrom | .prEpollPwait | .prOther _ => 6
    | _ => 4

/-- The newer call for a call. -/
def newer : Sysnum → Sysnum
  | .prUtimes | .prUtime => .prUtimensat
  | sysnum => (meaning sysnum).1

/-- What a call asks for with these registers and this memory. -/
def request (sysnum : Sysnum) (reg : Reg → UInt64) (m : TraceeMemory) : Request :=
  match sysnum with
  | .prUtimes =>
    .setTimes atFdcwd (reg (.sysarg 0)) (timesAt m (reg (.sysarg 1)) 32 timensOfTimeval) 0
  | .prUtime =>
    .setTimes atFdcwd (reg (.sysarg 0)) (timesAt m (reg (.sysarg 1)) 16 timensOfUtimbuf) 0
  | .prUtimensat =>
    .setTimes (reg (.sysarg 0)) (reg (.sysarg 1))
      (timesAt m (reg (.sysarg 2)) 32 timensOfTimespec) (reg (.sysarg 3))
  | sysnum =>
    -- `dup2` of a descriptor onto itself duplicates nothing; `dup3` refuses it.
    if sysnum = .prDup2 ∧ (reg (.sysarg 0)).toUInt32 = (reg (.sysarg 1)).toUInt32 then
      .checkFd (reg (.sysarg 0))
    -- `faccessat` has no flags
    else if sysnum = .prFaccessat2 ∧ (reg (.sysarg 3)).toUInt32 ≠ 0 then
      .call .prFaccessat2 ([arg 0, arg 1, arg 2, arg 3].map (Source.eval reg))
    else .call (meaning sysnum).1 ((meaning sysnum).2.map (Source.eval reg))

namespace Tracee

/-- What the trapped call asks for. -/
def asks (t : Tracee) : Request := request t.getSysnum t.current.reg t.memory

/-- What the call asks for that the thread makes with its registers. -/
def makes (t : Tracee) : Request :=
  request (t.abi.translate (t.process.reg .sysargNum)) t.process.reg t.memory

/-- Where the converted times are written. -/
def timesBase (t : Tracee) : ℕ :=
  Aoxp.allocMem
    ⟨(t.current.reg .stackPointer).toNat, (t.original.reg .stackPointer).toNat, 0⟩ 32

/-- With the converted times written, what stands at the second argument is those times. -/
def TimesStand (t : Tracee) (size : ℕ) (timens : List UInt8 → List UInt64) : Prop :=
  let times := timens (t.memory.values (t.current.reg (.sysarg 1)).toNat size)
  t.memory.Mapped (t.current.reg (.sysarg 1)).toNat 32 ∧
    timensOfTimespec ((t.memory.put t.timesBase (structureBytes times)).values
      (t.current.reg (.sysarg 1)).toNat 32) = times

/-- The registers that the rewriting leaves right. -/
def Survives (t : Tracee) : Prop :=
  match t.getSysnum with
  | .prOpen | .prChown | .prLchown | .prChown32 | .prLchown32 =>
    t.current.reg (.sysarg 0) = atFdcwd ∧ t.current.reg (.sysarg 1) = atFdcwd ∧
      t.current.reg (.sysarg 2) = atFdcwd
  | .prSymlink => t.current.reg (.sysarg 1) = atFdcwd
  | .prLink | .prChmod | .prStat | .prLstat | .prAccess | .prMkdir | .prRename =>
    t.current.reg (.sysarg 0) = atFdcwd ∧ t.current.reg (.sysarg 1) = atFdcwd
  | .prUnlink | .prRmdir => t.current.reg (.sysarg 0) = atFdcwd
  | .prFaccessat2 => (t.current.reg (.sysarg 3)).toUInt32 = 0
  | .prPipe => t.current.reg (.sysarg 1) = 0
  | .prDup2 =>
    (t.current.reg (.sysarg 0)).toUInt32 ≠ (t.current.reg (.sysarg 1)).toUInt32 ∧
      t.current.reg (.sysarg 2) = 0
  | .prUtimes => t.current.reg (.sysarg 1) = 0 ∨ t.TimesStand 32 timensOfTimeval
  | .prUtime => t.current.reg (.sysarg 1) = 0 ∨ t.TimesStand 16 timensOfUtimbuf
  | _ => True

end Tracee

variable {t t' : Tracee} {r : Reg} {moves : List (Move Reg UInt64)} {new : Sysnum}

/-! ### Numbers -/

theorem translate_detranslate (abi : Sysnums) (sysnum : Sysnum) :
    abi.translate (abi.detranslate sysnum) =
      if sysnum ∈ abi.table then sysnum else .prVoid := by
  have hlength := abi.length_lt
  have havoider : abi.translate Chain.syscallAvoider = .prVoid := by
    have hnumber : Chain.syscallAvoider.toNat = 2 ^ 64 - 1 := by decide
    rw [Sysnums.translate, hnumber, List.getElem?_eq_none (by omega)]
    rfl
  rw [Sysnums.detranslate]
  by_cases hvoid : sysnum = .prVoid
  · rw [if_pos hvoid, havoider, hvoid, ite_self]
  · rw [if_neg hvoid]
    cases hfind : abi.table.findIdx? (· = sysnum) with
    | none =>
      rw [List.findIdx?_eq_none_iff] at hfind
      have hnot : sysnum ∉ abi.table := fun hmem => by
        have h := hfind sysnum hmem
        rw [decide_eq_true rfl] at h
        cases h
      rw [if_neg hnot]
      exact havoider
    | some i =>
      rw [List.findIdx?_eq_some_iff_getElem] at hfind
      obtain ⟨hlt, hget, -⟩ := hfind
      have hget := of_decide_eq_true hget
      have hmem : sysnum ∈ abi.table := hget ▸ List.getElem_mem hlt
      have hnumber : (UInt64.ofNat i).toNat = i := UInt64.toNat_ofNat_of_lt' (hlt.trans hlength)
      rw [if_pos hmem]
      dsimp only
      rw [Sysnums.translate, hnumber, List.getElem?_eq_getElem hlt, hget, Option.getD_some]

/-! ### Pokes -/

namespace Tracee

@[simp] theorem pokeReg_reg (t : Tracee) (r : Reg) (value : UInt64) :
    (t.pokeReg r value).current.reg = Function.update t.current.reg r value := by
  rw [pokeReg]
  split_ifs with hsame
  · rw [← hsame, Function.update_eq_self]
  · rfl

/-- What a poke leaves alone. -/
structure SameBut (t t' : Tracee) : Prop where
  abi : t'.abi = t.abi
  memory : t'.memory = t.memory
  access : t'.access = t.access
  original : t'.original = t.original
  restore : t'.restoreOriginalRegs = t.restoreOriginalRegs

theorem SameBut.refl (t : Tracee) : SameBut t t := ⟨rfl, rfl, rfl, rfl, rfl⟩

theorem SameBut.trans {t'' : Tracee} (h : SameBut t t') (h' : SameBut t' t'') :
    SameBut t t'' where
  abi := h'.abi.trans h.abi
  memory := h'.memory.trans h.memory
  access := h'.access.trans h.access
  original := h'.original.trans h.original
  restore := h'.restore.trans h.restore

theorem sameBut_pokeReg (t : Tracee) (r : Reg) (value : UInt64) :
    SameBut t (t.pokeReg r value) := by
  rw [pokeReg]
  split_ifs
  · exact .refl t
  · exact ⟨rfl, rfl, rfl, rfl, rfl⟩

theorem pokeRegs_reg (t : Tracee) (moves : List (Move Reg UInt64)) :
    (t.pokeRegs moves).current.reg = run moves t.current.reg := by
  induction moves generalizing t with
  | nil => rfl
  | cons move moves ih =>
    rw [pokeRegs, List.foldl_cons, run, List.foldl_cons]
    exact (ih _).trans (by rw [pokeReg_reg]; rfl)

theorem sameBut_pokeRegs (t : Tracee) (moves : List (Move Reg UInt64)) :
    SameBut t (t.pokeRegs moves) := by
  induction moves generalizing t with
  | nil => exact .refl t
  | cons move moves ih =>
    rw [pokeRegs, List.foldl_cons]
    exact (sameBut_pokeReg t _ _).trans (ih _)

/-- The thread makes the call with the registers that were poked. -/
theorem restart_process (hrestore : t.restoreOriginalRegs = false) :
    t.restartSyscallAfterSeccomp.process.reg = t.current.reg ∧
      t.restartSyscallAfterSeccomp.process.instrPointer =
        t.current.instrPointer - Chain.systrapSize := by
  have hmoves : t.current.instrPointer ≠ t.current.instrPointer - Chain.systrapSize := by
    intro hsame
    have hsize : Chain.systrapSize.toNat = 4 := rfl
    have hlt := t.current.instrPointer.toNat_lt
    have hnat := congrArg UInt64.toNat hsame
    rw [UInt64.toNat_sub, hsize] at hnat
    omega
  have hchanged : ({ t with
      restoreOriginalRegsAfterSeccompEvent := true } : Tracee).pokeInstrPointer
        (t.current.instrPointer - Chain.systrapSize) =
        { t with
          restoreOriginalRegsAfterSeccompEvent := true
          current :=
            { t.current with instrPointer := t.current.instrPointer - Chain.systrapSize }
          regsWereChanged := true } := by
    rw [pokeInstrPointer, if_neg hmoves]
  rw [restartSyscallAfterSeccomp]
  dsimp only
  rw [hchanged, pushSpecificRegs, if_neg (fun h => h.1 rfl)]
  dsimp only
  rw [hrestore, if_neg Bool.false_ne_true]
  exact ⟨rfl, rfl⟩

theorem makes_restart (hrestore : t.restoreOriginalRegs = false) :
    t.restartSyscallAfterSeccomp.makes =
      request (t.abi.translate (t.current.reg .sysargNum)) t.current.reg t.memory := by
  have hkept : t.restartSyscallAfterSeccomp.abi = t.abi ∧
      t.restartSyscallAfterSeccomp.memory = t.memory := by
    rw [restartSyscallAfterSeccomp, pokeInstrPointer]
    split_ifs <;> rw [pushSpecificRegs] <;> split_ifs <;> exact ⟨rfl, rfl⟩
  rw [makes, hkept.1, hkept.2, (restart_process hrestore).1]

/-- The call of the thread after moves between the arguments. -/
theorem makes_lowered (hrestore : t.restoreOriginalRegs = false)
    (hnum : Reg.sysargNum ∉ moves.map Prod.fst) :
    ((t.setSysnum new).pokeRegs moves).restartSyscallAfterSeccomp.makes =
      request (if new ∈ t.abi.table then new else .prVoid)
        (run moves (Function.update t.current.reg .sysargNum (t.abi.detranslate new)))
        t.memory := by
  have hset : SameBut t (t.setSysnum new) := sameBut_pokeReg t .sysargNum _
  have hsame := hset.trans (sameBut_pokeRegs _ moves)
  have hreg : ((t.setSysnum new).pokeRegs moves).current.reg =
      run moves (Function.update t.current.reg .sysargNum (t.abi.detranslate new)) := by
    rw [pokeRegs_reg, setSysnum, pokeReg_reg]
  have hnumber : ((t.setSysnum new).pokeRegs moves).abi.translate
      (((t.setSysnum new).pokeRegs moves).current.reg .sysargNum) =
        if new ∈ t.abi.table then new else .prVoid := by
    rw [hreg, run_of_notMem hnum, Function.update_self, hsame.abi, translate_detranslate]
  rw [makes_restart (hsame.restore.trans hrestore), hnumber, hreg, hsame.memory]

/-- A newer call with plain arguments. -/
structure Plain (new : Sysnum) : Prop where
  self : (meaning new).1 = new
  notTimes : new ≠ .prUtimes ∧ new ≠ .prUtime ∧ new ≠ .prUtimensat
  notDup2 : new ≠ .prDup2
  notFaccessat2 : new ≠ .prFaccessat2
  notVoid : new ≠ .prVoid

theorem request_plain {sysnum : Sysnum} {reg : Reg → UInt64} (htimes : sysnum ≠ .prUtimes ∧
    sysnum ≠ .prUtime ∧ sysnum ≠ .prUtimensat) (hdup : ¬ (sysnum = .prDup2 ∧
      (reg (.sysarg 0)).toUInt32 = (reg (.sysarg 1)).toUInt32))
    (hflags : ¬ (sysnum = .prFaccessat2 ∧ (reg (.sysarg 3)).toUInt32 ≠ 0)) (m : TraceeMemory) :
    request sysnum reg m =
      .call (meaning sysnum).1 ((meaning sysnum).2.map (Source.eval reg)) := by
  rw [request]
  · rw [if_neg hdup, if_neg hflags]
  · exact htimes.1
  · exact htimes.2.1
  · exact htimes.2.2

/-- The call of the thread when the newer call has plain arguments. -/
theorem makes_plain (hnew : Plain new) (hrestore : t.restoreOriginalRegs = false)
    (hnum : Reg.sysargNum ∉ moves.map Prod.fst) :
    ((t.setSysnum new).pokeRegs moves).restartSyscallAfterSeccomp.makes =
      if new ∈ t.abi.table then
        .call new ((meaning new).2.map (Source.eval (run moves
          (Function.update t.current.reg .sysargNum (t.abi.detranslate new)))))
      else .call .prVoid [] := by
  rw [makes_lowered hrestore hnum]
  split_ifs
  · rw [request_plain hnew.notTimes (fun h => hnew.notDup2 h.1) (fun h => hnew.notFaccessat2 h.1),
      hnew.self]
  · rfl

/-- A lowered call asks for what it asked for if and only if the table has the newer call and
each argument of that call, traced back, is the right one. -/
theorem makes_eq_call_iff {origins : List (Source Reg UInt64)} (hnew : Plain new)
    (hrestore : t.restoreOriginalRegs = false) (hnum : Reg.sysargNum ∉ moves.map Prod.fst)
    (htrace : (meaning new).2.map (Source.back (trace moves)) = origins)
    (hargs : ∀ source ∈ origins, source ≠ .reg .sysargNum) (wanted : List UInt64) :
    ((t.setSysnum new).pokeRegs moves).restartSyscallAfterSeccomp.makes = .call new wanted ↔
      new ∈ t.abi.table ∧ origins.map (Source.eval t.current.reg) = wanted := by
  have horigins : (meaning new).2.map (Source.eval (run moves
      (Function.update t.current.reg .sysargNum (t.abi.detranslate new)))) =
        origins.map (Source.eval t.current.reg) := by
    have hback : (meaning new).2.map (Source.eval (run moves
        (Function.update t.current.reg .sysargNum (t.abi.detranslate new)))) =
          origins.map (Source.eval
            (Function.update t.current.reg .sysargNum (t.abi.detranslate new))) := by
      rw [← htrace, List.map_map]
      refine List.map_congr_left fun source _ => ?_
      rw [Function.comp_apply, eval_back]
      exact congrArg (Source.eval · source) (funext (run_eq_trace moves _))
    rw [hback]
    refine List.map_congr_left fun source hmem => ?_
    cases source with
    | const a => rfl
    | reg r => exact Function.update_of_ne (fun hr => hargs _ hmem (congrArg Source.reg hr)) _ _
  rw [makes_plain hnew hrestore hnum, horigins]
  by_cases hmem : new ∈ t.abi.table
  · rw [if_pos hmem, and_iff_right hmem, Request.call.injEq, and_iff_right rfl]
  · rw [if_neg hmem]
    refine iff_of_false (fun h => ?_) fun h => hmem h.1
    rw [Request.call.injEq] at h
    exact hnew.notVoid h.1.symm

/-! ### Times -/

theorem length_structureBytes (fields : List UInt64) :
    (structureBytes fields).length = wordSize * fields.length := by
  have hwords : fields.map (fun w => LittleEndian.encode wordSize w.toNat) =
      (fields.map UInt64.toNat).map (LittleEndian.encode wordSize) := by
    rw [List.map_map]
    rfl
  rw [structureBytes, hwords, LittleEndian.length_flatten_encode, List.length_map]

/-- The converted times stand below the stack. -/
theorem setSysargData_memory {data : List UInt8} (h : t.setSysargData data r = (t', true)) :
    t'.abi = t.abi ∧ t'.restoreOriginalRegs = t.restoreOriginalRegs ∧
      t'.memory = t.memory.put (Aoxp.allocMem ⟨(t.current.reg .stackPointer).toNat,
        (t.original.reg .stackPointer).toNat, 0⟩ data.length) data := by
  rw [setSysargData] at h
  dsimp only at h
  generalize Aoxp.allocMem ⟨(t.current.reg .stackPointer).toNat,
    (t.original.reg .stackPointer).toNat, 0⟩ data.length = traceePtr at h ⊢
  by_cases hroom : traceePtr = 0
  · rw [if_pos hroom] at h
    cases h
  · rw [if_neg hroom] at h
    have hsp := sameBut_pokeReg t .stackPointer (UInt64.ofNat traceePtr)
    generalize t.pokeReg .stackPointer (UInt64.ofNat traceePtr) = t₁ at h hsp
    cases hwrite : writeData t₁.access t₁.memory traceePtr data with
    | mk memory ok =>
      rw [hwrite] at h
      cases ok with
      | false => cases h
      | true =>
        have hput := writeData_success (congrArg Prod.snd hwrite)
        rw [hwrite] at hput
        dsimp only at h hput
        rw [Prod.mk.injEq] at h
        have hlast := sameBut_pokeReg { t₁ with memory } r (UInt64.ofNat traceePtr)
        rw [← h.1, hlast.abi, hlast.restore, hlast.memory, hput, hsp.memory]
        exact ⟨hsp.abi, hsp.restore, rfl⟩

/-- The moves of the calls that set times. -/
theorem makes_utimensat (path times : UInt64) (hrestore : t.restoreOriginalRegs = false)
    (h : t.transformToAtSys .prUtimensat (.const atFdcwd) (.const path)
      [(.sysarg 2, .const times), (.sysarg 3, .const 0)] = .restarted t') :
    t'.makes =
      if .prUtimensat ∈ t.abi.table then
        .setTimes atFdcwd path (timesAt t.memory times 32 timensOfTimespec) 0
      else .call .prVoid [] := by
  rw [transformToAtSys, Outcome.restarted.injEq] at h
  rw [← h, makes_lowered hrestore (by simp)]
  by_cases hmem : .prUtimensat ∈ t.abi.table
  · rw [if_pos hmem, if_pos hmem, request]
    simp only [run_eq_trace]
    rfl
  · rw [if_neg hmem, if_neg hmem]
    rfl

theorem readData_eq_some {size : ℕ} {bytes : List UInt8} {a : ℕ} {m : TraceeMemory}
    {access : Access} (hwords : roundUp size = size) (h : readData access m a size = some bytes) :
    m.Mapped a size ∧ bytes = m.values a size := by
  have hexact : ReadExact access m a size := (readExact_iff size).2 fun hmapped => by
    rw [hwords]
    exact .inl hmapped
  rw [ReadExact, h] at hexact
  split_ifs at hexact with hmapped
  exact ⟨hmapped, Option.some.inj hexact⟩

theorem lowerUtimes_keeps_iff {size : ℕ} {timens : List UInt8 → List UInt64}
    (hwords : roundUp size = size) (hlength : ∀ bytes, (timens bytes).length = 4)
    (hrestore : t.restoreOriginalRegs = false) (h : t.lowerUtimes size timens = .restarted t') :
    t'.makes = .setTimes atFdcwd (t.current.reg (.sysarg 0))
        (timesAt t.memory (t.current.reg (.sysarg 1)) size timens) 0 ↔
      .prUtimensat ∈ t.abi.table ∧
        (t.current.reg (.sysarg 1) = 0 ∨ t.TimesStand size timens) := by
  rw [lowerUtimes] at h
  by_cases hnow : t.current.reg (.sysarg 1) = 0
  · rw [if_pos hnow] at h
    rw [makes_utimensat _ _ hrestore h, timesAt, timesAt, if_pos hnow, if_pos hnow,
      and_iff_left (.inl hnow)]
    split_ifs with hmem
    · exact iff_of_true rfl hmem
    · exact iff_of_false (fun h => by cases h) hmem
  · rw [if_neg hnow] at h
    cases hread : readData t.access t.memory (t.current.reg (.sysarg 1)).toNat size with
    | none =>
      rw [hread] at h
      cases h
    | some bytes =>
      rw [hread] at h
      obtain ⟨hmapped, hbytes⟩ := readData_eq_some hwords hread
      have hdata : (structureBytes (timens bytes)).length = 32 := by
        rw [length_structureBytes, hlength]
        rfl
      dsimp only at h
      cases hset : t.setSysargData (structureBytes (timens bytes)) (.sysarg 1) with
      | mk t₁ ok =>
        rw [hset] at h
        cases ok with
        | false => cases h
        | true =>
          obtain ⟨habi, hsame, hmemory⟩ := setSysargData_memory hset
          dsimp only at h
          rw [hdata] at hmemory
          rw [makes_utimensat _ _ (hsame.trans hrestore) h, habi, hmemory, timesAt, timesAt,
            if_neg hnow, if_neg hnow, if_pos hmapped, or_iff_right hnow, TimesStand, ← hbytes]
          by_cases hmem : .prUtimensat ∈ t.abi.table
          · rw [if_pos hmem, and_iff_right hmem, Request.setTimes.injEq]
            by_cases hroom : t.memory.Mapped (t.current.reg (.sysarg 1)).toNat 32
            · rw [if_pos (mapped_put.2 hroom), Times.given.injEq]
              exact ⟨fun h => ⟨hroom, h.2.2.1⟩, fun h => ⟨rfl, rfl, h.2, rfl⟩⟩
            · rw [if_neg (mt mapped_put.1 hroom)]
              exact iff_of_false (fun h => by cases h.2.2.1) fun h => hroom h.1
          · rw [if_neg hmem]
            exact iff_of_false (fun h => by cases h) fun h => hmem h.1

/-! ### The rewriting -/

/-- How the rewriting begins. -/
inductive Begun : Tracee → Prop
  | trapped (t : Tracee) (fetched : Regs) : Begun (t.trapped fetched)
  | refused (t : Tracee) : Begun t.refused

theorem Begun.restore (h : Begun t) : t.restoreOriginalRegs = false := by
  cases h <;> rfl

/-- The moves of `TRANSFORM_TO_AT_SYS`. -/
def atMoves (fd path : Source Reg UInt64) (more : List (Move Reg UInt64)) :
    List (Move Reg UInt64) :=
  (.sysarg 0, fd) :: (.sysarg 1, path) :: more

/-- The newer call and the moves of a call that is rewritten by moves alone. -/
def rewriting : Sysnum → Option (Sysnum × List (Move Reg UInt64))
  | .prOpen => some (.prOpenat, atMoves (.const atFdcwd) (arg 0)
      [(.sysarg 2, arg 1), (.sysarg 3, arg 2)])
  | .prSymlink => some (.prSymlinkat, atMoves (arg 0) (.const atFdcwd) [(.sysarg 2, arg 1)])
  | .prLink => some (.prLinkat, atMoves (.const atFdcwd) (arg 0)
      [(.sysarg 2, .const atFdcwd), (.sysarg 3, arg 1), (.sysarg 4, .const 0)])
  | .prChmod => some (.prFchmodat, atMoves (.const atFdcwd) (arg 0)
      [(.sysarg 2, arg 1), (.sysarg 3, .const 0)])
  | .prChown | .prChown32 => some (.prFchownat, atMoves (.const atFdcwd) (arg 0)
      [(.sysarg 2, arg 1), (.sysarg 3, arg 2), (.sysarg 4, .const 0)])
  | .prLchown | .prLchown32 => some (.prFchownat, atMoves (.const atFdcwd) (arg 0)
      [(.sysarg 2, arg 1), (.sysarg 3, arg 2), (.sysarg 4, .const atSymlinkNofollow)])
  | .prUnlink => some (.prUnlinkat, atMoves (.const atFdcwd) (arg 0) [(.sysarg 2, .const 0)])
  | .prRmdir => some (.prUnlinkat, atMoves (.const atFdcwd) (arg 0)
      [(.sysarg 2, .const atRemovedir)])
  | .prStat => some (.prNewfstatat, atMoves (.const atFdcwd) (arg 0)
      [(.sysarg 2, arg 1), (.sysarg 3, .const 0)])
  | .prLstat => some (.prNewfstatat, atMoves (.const atFdcwd) (arg 0)
      [(.sysarg 2, arg 1), (.sysarg 3, .const atSymlinkNofollow)])
  | .prAccess => some (.prFaccessat, atMoves (.const atFdcwd) (arg 0)
      [(.sysarg 2, arg 1), (.sysarg 3, .const 0)])
  | .prMkdir => some (.prMkdirat, atMoves (.const atFdcwd) (arg 0) [(.sysarg 2, arg 1)])
  | .prRename => some (.prRenameat, atMoves (.const atFdcwd) (arg 0)
      [(.sysarg 2, .const atFdcwd), (.sysarg 3, arg 1)])
  | .prAccept => some (.prAccept4, [(.sysarg 3, .const 0)])
  | .prSend => some (.prSendto, [(.sysarg 4, .const 0), (.sysarg 5, .const 0)])
  | .prRecv => some (.prRecvfrom, [(.sysarg 4, .const 0), (.sysarg 5, .const 0)])
  | .prWaitpid => some (.prWait4, [(.sysarg 3, .const 0)])
  | .prPipe => some (.prPipe2, [(.sysarg 3, .const 0)])
  | .prDup2 => some (.prDup3, [(.sysarg 3, .const 0)])
  | .prEpollWait => some (.prEpollPwait, [(.sysarg 4, .const 0), (.sysarg 5, .const 0)])
  | _ => none

/-- Where the arguments of the newer call come from after these moves. -/
def origins : Sysnum → List (Source Reg UInt64)
  | .prOpen => [.const atFdcwd, .const atFdcwd, .const atFdcwd, .const atFdcwd]
  | .prSymlink => [arg 0, .const atFdcwd, .const atFdcwd]
  | .prLink => [.const atFdcwd, .const atFdcwd, .const atFdcwd, .const atFdcwd, .const 0]
  | .prChmod | .prAccess | .prMkdir => [.const atFdcwd, .const atFdcwd, .const atFdcwd]
  | .prStat => [.const atFdcwd, .const atFdcwd, .const atFdcwd, .const 0]
  | .prLstat => [.const atFdcwd, .const atFdcwd, .const atFdcwd, .const atSymlinkNofollow]
  | .prChown | .prChown32 =>
    [.const atFdcwd, .const atFdcwd, .const atFdcwd, .const atFdcwd, .const 0]
  | .prLchown | .prLchown32 =>
    [.const atFdcwd, .const atFdcwd, .const atFdcwd, .const atFdcwd, .const atSymlinkNofollow]
  | .prUnlink => [.const atFdcwd, .const atFdcwd, .const 0]
  | .prRmdir => [.const atFdcwd, .const atFdcwd, .const atRemovedir]
  | .prRename => [.const atFdcwd, .const atFdcwd, .const atFdcwd, .const atFdcwd]
  | .prAccept | .prWaitpid => [arg 0, arg 1, arg 2, .const 0]
  | .prSend | .prRecv | .prEpollWait => [arg 0, arg 1, arg 2, arg 3, .const 0, .const 0]
  | .prPipe => [arg 0, arg 1]
  | .prDup2 => [arg 0, arg 1, arg 2]
  | _ => []

/-- What the tables say of a call that is rewritten by moves. -/
structure Rewritten (sysnum new : Sysnum) (moves : List (Move Reg UInt64)) : Prop where
  newer : (meaning sysnum).1 = new
  plain : Plain new
  notTimes : sysnum ≠ .prUtimes ∧ sysnum ≠ .prUtime ∧ sysnum ≠ .prUtimensat
  notFaccessat2 : sysnum ≠ .prFaccessat2
  notNumber : Reg.sysargNum ∉ moves.map Prod.fst
  origins : (meaning new).2.map (Source.back (trace moves)) = origins sysnum
  args : ∀ source ∈ Tracee.origins sysnum, source ≠ .reg .sysargNum

theorem rewritten_of_rewriting {sysnum : Sysnum} (h : rewriting sysnum = some (new, moves)) :
    Rewritten sysnum new moves := by
  have hplain : ∀ new, ((meaning new).1 = new ∧
      (new ≠ .prUtimes ∧ new ≠ .prUtime ∧ new ≠ .prUtimensat) ∧ new ≠ .prDup2 ∧
        new ≠ .prFaccessat2 ∧ new ≠ .prVoid) → Plain new :=
    fun _ h => ⟨h.1, h.2.1, h.2.2.1, h.2.2.2.1, h.2.2.2.2⟩
  cases sysnum
  all_goals
    first
    | cases h
      exact ⟨rfl, hplain _ (by decide), by decide, by decide, by decide, rfl, by decide⟩
    | cases h

/-- **What the rewriting does** when the call is made again. -/
theorem handle_cases (h : t.handleSeccompEventCommon = some (.restarted t')) :
    (∃ new moves, rewriting t.getSysnum = some (new, moves) ∧
      t' = ((t.setSysnum new).pokeRegs moves).restartSyscallAfterSeccomp) ∨
    (t.getSysnum = .prFaccessat2 ∧
      t' = ((t.setSysnum .prFaccessat).pokeRegs
        [(.sysarg 3, .const (t.current.reg (.sysarg 3) &&& atSymlinkNofollow))]
          ).restartSyscallAfterSeccomp) ∨
    (t.getSysnum = .prUtimes ∧ t.lowerUtimes 32 timensOfTimeval = .restarted t') ∨
    (t.getSysnum = .prUtime ∧ t.lowerUtimes 16 timensOfUtimbuf = .restarted t') := by
  rw [handleSeccompEventCommon] at h
  cases hsys : t.getSysnum <;> rw [hsys] at h
  case prFaccessat2 =>
    exact .inr (.inl ⟨rfl, (Outcome.restarted.inj (Option.some.inj h)).symm⟩)
  case prUtimes => exact .inr (.inr (.inl ⟨rfl, Option.some.inj h⟩))
  case prUtime => exact .inr (.inr (.inr ⟨rfl, Option.some.inj h⟩))
  all_goals
    first
    | exact .inl ⟨_, _, rfl, (Outcome.restarted.inj (Option.some.inj h)).symm⟩
    | cases h

/-- Where the moves leave the arguments right. -/
theorem origins_iff (h : rewriting t.getSysnum = some (new, moves))
    (hdup : t.getSysnum = .prDup2 → (t.current.reg (.sysarg 0)).toUInt32 ≠
      (t.current.reg (.sysarg 1)).toUInt32) :
    (origins t.getSysnum).map (Source.eval t.current.reg) =
      (meaning t.getSysnum).2.map (Source.eval t.current.reg) ↔ t.Survives := by
  rw [Survives]
  cases hsys : t.getSysnum <;> rw [hsys] at h hdup
  case prDup2 => simp [origins, meaning, hdup]
  all_goals
    first
    | cases h
      simp [origins, meaning, eq_comm]
    | cases h

/-- `faccessat2` keeps one flag in a register that the kernel does not look at: `faccessat` has no
flags. -/
theorem faccessat2_keeps_iff (hsys : t.getSysnum = .prFaccessat2)
    (hrestore : t.restoreOriginalRegs = false) (flags : UInt64) :
    ((t.setSysnum .prFaccessat).pokeRegs [(.sysarg 3, .const flags)]
        ).restartSyscallAfterSeccomp.makes = t.asks ↔
      .prFaccessat ∈ t.abi.table ∧ (t.current.reg (.sysarg 3)).toUInt32 = 0 := by
  have hnew : Plain .prFaccessat := ⟨rfl, by decide, by decide, by decide, by decide⟩
  by_cases hflags : (t.current.reg (.sysarg 3)).toUInt32 = 0
  · have htrace : (meaning .prFaccessat).2.map (Source.back (trace [(.sysarg 3, .const flags)])) =
        [arg 0, arg 1, arg 2] := rfl
    rw [asks, hsys, request_plain (by decide) (fun h => by cases h.1) fun h => h.2 hflags]
    refine (makes_eq_call_iff hnew hrestore (by simp) htrace (by simp) _).trans ?_
    rw [and_iff_left hflags]
    exact and_iff_left rfl
  · have hasks : t.asks = .call .prFaccessat2
        ([arg 0, arg 1, arg 2, arg 3].map (Source.eval t.current.reg)) := by
      rw [asks, hsys, request, if_neg (fun h => by cases h.1), if_pos ⟨rfl, hflags⟩] <;> decide
    rw [hasks, makes_plain hnew hrestore (by simp)]
    refine iff_of_false (fun h => ?_) fun h => hflags h.2
    split_ifs at h
    · exact absurd (Request.call.inj h).1 (by decide)
    · exact absurd (Request.call.inj h).1 (by decide)

/-- **Lowered calls.**  Where the tracee makes a trapped call again with the registers that the
tracer has rewritten, it asks for what it asked for, if and only if the table has the newer
call and the registers are of those that the rewriting leaves right. -/
theorem lowering_keeps_iff (hbegun : Begun t)
    (h : t.handleSeccompEventCommon = some (.restarted t')) :
    t'.makes = t.asks ↔ newer t.getSysnum ∈ t.abi.table ∧ t.Survives := by
  have hrestore := hbegun.restore
  obtain ⟨new, moves, hmoves, rfl⟩ | ⟨hsys, rfl⟩ | ⟨hsys, htimes⟩ | ⟨hsys, htimes⟩ :=
    handle_cases h
  · have hnew := rewritten_of_rewriting hmoves
    have hnewer : newer t.getSysnum = new := by
      rw [newer]
      · exact hnew.newer
      · exact hnew.notTimes.1
      · exact hnew.notTimes.2.1
    by_cases hdup : t.getSysnum = .prDup2 ∧
        (t.current.reg (.sysarg 0)).toUInt32 = (t.current.reg (.sysarg 1)).toUInt32
    · have hasks : t.asks = .checkFd (t.current.reg (.sysarg 0)) := by
        rw [asks, hdup.1, request, if_pos ⟨rfl, hdup.2⟩] <;> decide
      rw [hasks, makes_plain hnew.plain hrestore hnew.notNumber]
      refine iff_of_false (fun h => ?_) fun h => ?_
      · split_ifs at h
      · have hsurvives := h.2
        rw [Survives, hdup.1] at hsurvives
        exact hsurvives.1 hdup.2
    · rw [asks, request_plain hnew.notTimes hdup (fun h => hnew.notFaccessat2 h.1), hnewer,
        hnew.newer, makes_eq_call_iff hnew.plain hrestore hnew.notNumber hnew.origins hnew.args]
      exact and_congr_right fun _ => origins_iff hmoves fun hsys hfds => hdup ⟨hsys, hfds⟩
  · rw [Survives, hsys]
    exact faccessat2_keeps_iff hsys hrestore _
  · rw [asks, hsys, Survives, hsys]
    exact lowerUtimes_keeps_iff (by decide) (fun _ => rfl) hrestore htimes
  · rw [asks, hsys, Survives, hsys]
    exact lowerUtimes_keeps_iff (by decide) (fun _ => rfl) hrestore htimes

/-- The registers of a call. -/
def callRegs (number : UInt64) (args : List UInt64) : Regs where
  reg
    | .sysargNum => number
    | .sysarg i => args.getD i 0
    | .stackPointer => 2048
  instrPointer := 65536

/-- A tracee in front of its first call. -/
def fresh (abi : Sysnums) : Tracee where
  abi := abi
  current := callRegs 0 []
  original := callRegs 0 []
  originalSeccompRewrite := callRegs 0 []
  process := callRegs 0 []
  regsWereChanged := false
  restoreOriginalRegs := true
  restoreOriginalRegsAfterSeccompEvent := false
  restoreSysarg1AfterSigsys := false
  access := ⟨true, true⟩
  memory := onePage

theorem lowering_keeps_accept : ∃ t',
    ((fresh sysnumsArm64).trapped (callRegs 202 [3, 1024, 1040])).handleSeccompEventCommon =
        some (.restarted t') ∧
      t'.makes = ((fresh sysnumsArm64).trapped (callRegs 202 [3, 1024, 1040])).asks := by
  have hsys : ((fresh sysnumsArm64).trapped (callRegs 202 [3, 1024, 1040])).getSysnum =
      .prAccept := by decide +kernel
  refine ⟨_, by rw [handleSeccompEventCommon, hsys, transformSimpleSyscall], ?_⟩
  refine (lowering_keeps_iff (.trapped _ _) ?_).2 ⟨?_, ?_⟩
  · rw [handleSeccompEventCommon, hsys, transformSimpleSyscall]
  · rw [hsys]
    decide +kernel
  · rw [Survives, hsys]
    trivial

/-- A table with `open` and `openat`. -/
def openTable : Sysnums := ⟨[.prOpen, .prOpenat], by decide⟩

/-- The path of `open` at 1024 is lost, and so are its flags; `AT_EACCESS` of `faccessat2` is
lost on ARM64. -/
theorem open_loses_path :
    (∃ t', ((fresh openTable).trapped (callRegs 0 [1024, 0, 0])).handleSeccompEventCommon =
        some (.restarted t') ∧
      ((fresh openTable).trapped (callRegs 0 [1024, 0, 0])).asks =
        .call .prOpenat [atFdcwd, 1024, 0, 0] ∧
      t'.makes = .call .prOpenat [atFdcwd, atFdcwd, atFdcwd, atFdcwd]) ∧
    ∃ t', ((fresh sysnumsArm64).trapped
        (callRegs 439 [atFdcwd, 1024, 1, 0x200])).handleSeccompEventCommon =
        some (.restarted t') ∧
      ((fresh sysnumsArm64).trapped (callRegs 439 [atFdcwd, 1024, 1, 0x200])).asks =
        .call .prFaccessat2 [atFdcwd, 1024, 1, 0x200] ∧
      t'.makes = .call .prFaccessat [atFdcwd, 1024, 1] := by
  have hopen : ((fresh openTable).trapped (callRegs 0 [1024, 0, 0])).getSysnum =
      .prOpen := by decide +kernel
  have hfaccessat2 : ((fresh sysnumsArm64).trapped
      (callRegs 439 [atFdcwd, 1024, 1, 0x200])).getSysnum = .prFaccessat2 := by decide +kernel
  constructor
  · exact ⟨_, by rw [handleSeccompEventCommon, hopen, transformToAtSys], by decide +kernel,
      by decide +kernel⟩
  · exact ⟨_, by rw [handleSeccompEventCommon, hfaccessat2], by decide +kernel,
      by decide +kernel⟩

end Tracee

end NeoProot.Lowering
