import NeoProot.Syscall.Seccomp
import Mathlib.Data.List.Nodup
import Mathlib.Data.Fintype.List

/-!
# The verdicts of the seccomp filter

Each system call of the list is an entry of the program: a comparison of the
number and what answers a match.  An argument filter leaves the command in the
accumulator when it does not list it, and the entries behind it compare that
instead of the number.  `setSeccompFilters_verdict` says for which calls this
shows.

## Main definitions

* `specified` — the verdict a call should get.
* `Entry` — the part of the program for one system call.
* `Misread`, `Misanswered` — the calls whose command is compared with a number, and
  answered for it.
-/

namespace NeoProot.Seccomp
open Bpf

variable {cfg : FilterConfig} {s : FilteredSysnum} {value : Sysnum}

/-! ### The specified verdict -/

/-- The flags that the lists give a system call, all together. -/
def listedFlags (lists : List (List FilteredSysnum)) (value : Sysnum) : UInt64 :=
  ((lists.flatten.filter (·.value = value)).map (·.flags)).foldl (· ||| ·) 0

/-- The system call of a number, if it is listed. -/
def listed (table : Sysnums) (lists : List (List FilteredSysnum)) (nr : UInt32) :
    Option FilteredSysnum :=
  (lists.flatten.find? fun s => detranslateSysnum table s.value = some nr.toNat).map fun s =>
    ⟨s.value, listedFlags lists s.value⟩

/-- The verdict for a call of a listed system call. -/
def specifiedFor (cfg : FilterConfig) (s : FilteredSysnum) (d : SeccompData) : UInt32 :=
  let trace := seccompRetTrace + s.flags.toUInt32
  if cfg.statShim ∧ isStatShimSysnum s.value cfg.link2symlink then
    if cfg.userNotif ∧ isUserNotifSysnum s.value then
      if highWord (d.args (if s.value = .statx then 2 else 3)) = statShimRawTag then
        seccompRetAllow
      else seccompRetUserNotif
    else seccompRetAllow
  else if s.value = .ioctl then
    if lowWord (d.args 1) ∈ ioctlCmds then trace else seccompRetAllow
  else if s.value = .fcntl ∨ s.value = .fcntl64 then
    if lowWord (d.args 1) ∈ fcntlTracedCmds then trace else seccompRetAllow
  else if cfg.userNotif ∧ isUserNotifSysnum s.value then seccompRetUserNotif
  else trace

/-- The verdict a call should get. -/
def specified (cfg : FilterConfig) (lists : List (List FilteredSysnum)) (d : SeccompData) :
    UInt32 :=
  if d.arch ≠ auditArchAarch64 then seccompRetKill
  else
    match listed cfg.table lists d.nr with
    | none => seccompRetAllow
    | some s => specifiedFor cfg s d

/-! ### The merged list -/

/-- The flags of a system call in a list. -/
def flagsOf (list : List FilteredSysnum) (value : Sysnum) : Option UInt64 :=
  (list.find? (·.value = value)).map (·.flags)

theorem map_value_mergeFilteredSysnum (list : List FilteredSysnum) (new : FilteredSysnum) :
    (mergeFilteredSysnum list new).map (·.value) =
      if new.value ∈ list.map (·.value) then list.map (·.value)
      else list.map (·.value) ++ [new.value] := by
  induction list with
  | nil => simp [mergeFilteredSysnum]
  | cons s list ih =>
    rw [mergeFilteredSysnum]
    by_cases h : s.value = new.value
    · rw [if_pos h, List.map_cons, List.map_cons, if_pos (by simp [h])]
    · rw [if_neg h, List.map_cons, ih, List.map_cons]
      by_cases hmem : new.value ∈ list.map (·.value)
      · rw [if_pos hmem, if_pos (List.mem_cons_of_mem _ hmem)]
      · have hne : ¬ new.value = s.value := fun h' => h h'.symm
        rw [if_neg hmem, if_neg (by simpa [hne] using hmem), List.cons_append]

theorem flagsOf_mergeFilteredSysnum (list : List FilteredSysnum) (new : FilteredSysnum)
    (value : Sysnum) :
    flagsOf (mergeFilteredSysnum list new) value =
      if new.value = value then some ((flagsOf list value).getD 0 ||| new.flags)
      else flagsOf list value := by
  induction list with
  | nil =>
    by_cases h : new.value = value
    · simp [mergeFilteredSysnum, flagsOf, h]
    · simp [mergeFilteredSysnum, flagsOf, h]
  | cons s list ih =>
    simp only [flagsOf] at ih
    by_cases h : s.value = new.value
    · by_cases hv : new.value = value
      · simp [mergeFilteredSysnum, flagsOf, h, hv]
      · simp [mergeFilteredSysnum, flagsOf, h, hv]
    · by_cases hv : s.value = value
      · have hne : ¬ new.value = value := fun h' => h (hv.trans h'.symm)
        have hne' : ¬ value = new.value := fun h' => hne h'.symm
        simp [mergeFilteredSysnum, flagsOf, hv, hne, hne']
      · simp [mergeFilteredSysnum, flagsOf, h, hv, ih]

theorem filteredSysnums_eq (lists : List (List FilteredSysnum)) :
    filteredSysnums lists = lists.flatten.foldl mergeFilteredSysnum [] := by
  rw [List.foldl_flatten]
  rfl

theorem nodup_filteredSysnums (lists : List (List FilteredSysnum)) :
    ((filteredSysnums lists).map (·.value)).Nodup := by
  have hstep : ∀ (news list : List FilteredSysnum), (list.map (·.value)).Nodup →
      ((news.foldl mergeFilteredSysnum list).map (·.value)).Nodup := by
    intro news
    induction news with
    | nil => exact fun list h => h
    | cons new news ih =>
      intro list h
      refine ih _ ?_
      rw [map_value_mergeFilteredSysnum]
      split
      · exact h
      · rename_i hnot
        exact h.append (List.nodup_singleton _) (by simpa using hnot)
  rw [filteredSysnums_eq]
  exact hstep _ [] (by simp)

/-- **The merge keeps every system call of the lists once, with all its flags.** -/
theorem flagsOf_filteredSysnums (lists : List (List FilteredSysnum)) (value : Sysnum) :
    flagsOf (filteredSysnums lists) value =
      if value ∈ lists.flatten.map (·.value) then some (listedFlags lists value) else none := by
  have hstep : ∀ (news list : List FilteredSysnum),
      flagsOf (news.foldl mergeFilteredSysnum list) value =
        if value ∈ news.map (·.value) then
          some (((news.filter (·.value = value)).map (·.flags)).foldl (· ||| ·)
            ((flagsOf list value).getD 0))
        else flagsOf list value := by
    intro news
    induction news with
    | nil => simp
    | cons new news ih =>
      intro list
      rw [List.foldl_cons, ih, flagsOf_mergeFilteredSysnum]
      by_cases h : new.value = value
      · by_cases hmem : value ∈ news.map (·.value)
        · rw [if_pos hmem, if_pos (by simp [h])]
          simp [h]
        · have hfilter : news.filter (·.value = value) = [] := by
            rw [List.filter_eq_nil_iff]
            intro s hs
            simpa using fun hv => hmem (List.mem_map.2 ⟨s, hs, hv⟩)
          rw [if_neg hmem, if_pos (by simp [h])]
          simp [h, hfilter]
      · have h' : ¬ value = new.value := fun hv => h hv.symm
        simp [h, h']
  rw [filteredSysnums_eq, hstep]
  rfl

/-! ### The entries of the program -/

/-- What answers a match of the number. -/
inductive Answer
  | ret (verdict : UInt32)
  | args1 (verdict : UInt32) (cmds : List UInt32)
  | flag (argIndex : ℕ)
  deriving DecidableEq, Repr

/-- The part of the program for one system call. -/
structure Entry where
  number : UInt32
  answer : Answer
  deriving DecidableEq, Repr

variable {e : Entry} {es post : List Entry}

/-- The answer to a system call, if the filter has an entry for it. -/
def answerOf (cfg : FilterConfig) (s : FilteredSysnum) : Option Answer :=
  let trace := seccompRetTrace + s.flags.toUInt32
  if cfg.statShim ∧ isStatShimSysnum s.value cfg.link2symlink then
    if cfg.userNotif ∧ isUserNotifSysnum s.value then
      some (.flag (if s.value = .statx then 2 else 3))
    else none
  else if s.value = .ioctl then some (.args1 trace ioctlCmds)
  else if s.value = .fcntl ∨ s.value = .fcntl64 then some (.args1 trace fcntlTracedCmds)
  else if cfg.userNotif ∧ isUserNotifSysnum s.value then some (.ret seccompRetUserNotif)
  else some (.ret trace)

def entryOf (cfg : FilterConfig) (s : FilteredSysnum) : Option Entry :=
  match detranslateSysnum cfg.table s.value with
  | none => none
  | some sc => (answerOf cfg s).map fun answer => ⟨UInt32.ofNat sc, answer⟩

/-- The entries of the program for the merged lists. -/
def entries (cfg : FilterConfig) (lists : List (List FilteredSysnum)) : List Entry :=
  (filteredSysnums lists).filterMap (entryOf cfg)

/-- The statements of an entry. -/
def Entry.code (e : Entry) : List Insn :=
  match e.answer with
  | .ret verdict => [.jeq nrOff e.number 0 1, .ret verdict]
  | .args1 verdict cmds =>
    .jeq nrOff e.number 0 (UInt8.ofNat (1 + 2 * cmds.length)) ::
      .ld (argOff 1) ::
      cmds.flatMap fun arg => [.jeq (argOff 1) arg 0 1, .ret verdict]
  | .flag argIndex =>
    [.ld nrOff, .jeq nrOff e.number 0 4, .ld (argOff argIndex + 4),
      .jeq (argOff argIndex + 4) statShimRawTag 0 1, .ret seccompRetAllow,
      .ret seccompRetUserNotif]

/-- The code of an optional entry. -/
def optCode (e : Option Entry) : List Insn := e.elim [] Entry.code

/-- The number of a system call that has an entry fits a word. -/
def Fits (cfg : FilterConfig) (s : FilteredSysnum) : Prop :=
  ∀ sc, detranslateSysnum cfg.table s.value = some sc → (answerOf cfg s).isSome = true →
    sc < 2 ^ 32

theorem isUserNotifSysnum_iff (value : Sysnum) :
    isUserNotifSysnum value = true ↔
      value = .newfstatat ∨ value = .fstatat64 ∨ value = .statx := by
  simp [isUserNotifSysnum, or_assoc]

/-- A round of the second loop adds the code of the entry. -/
theorem addSysnum_eq (cfg : FilterConfig) (p : SockFprog) (s : FilteredSysnum) :
    (Fits cfg s ∧ addSysnum cfg p s = .ok (p.addStatements (optCode (entryOf cfg s)))) ∨
      (¬ Fits cfg s ∧ addSysnum cfg p s = .error .erange) := by
  simp only [addSysnum, entryOf, Fits, ← isUserNotifSysnum_iff]
  cases hsc : detranslateSysnum cfg.table s.value with
  | none => simp [optCode, SockFprog.addStatements]
  | some sc =>
    simp only [Option.some.injEq, forall_eq', answerOf, SockFprog.addNotifSyscallFlag,
      SockFprog.addTraceSyscallArgs1, SockFprog.addSyscallRet, SockFprog.addTraceSyscall]
    have hindex : ¬ 5 < (if s.value = .statx then 2 else 3) := by
      split <;> omega
    by_cases hlarge : 2 ^ 32 ≤ sc
    · simp only [hlarge, if_true, true_or]
      split
      · split
        · simpa using hlarge
        · simp [optCode, SockFprog.addStatements]
      · split
        · simpa using hlarge
        · split
          · simpa using hlarge
          · split
            · simpa using hlarge
            · simpa using hlarge
    · have hlt : sc < 2 ^ 32 := by omega
      simp only [hlarge, if_false, hindex, or_self]
      refine .inl ⟨fun _ => hlt, ?_⟩
      split
      · split
        · rfl
        · simp [optCode, SockFprog.addStatements]
      · split
        · rfl
        · split
          · rfl
          · split
            · rfl
            · rfl

/-- The second loop. -/
theorem foldlM_addSysnum (cfg : FilterConfig) (sysnums : List FilteredSysnum) (p : SockFprog) :
    ((∀ s ∈ sysnums, Fits cfg s) ∧ sysnums.foldlM (addSysnum cfg) p =
        .ok (p.addStatements ((sysnums.filterMap (entryOf cfg)).flatMap Entry.code))) ∨
      (¬ (∀ s ∈ sysnums, Fits cfg s) ∧ sysnums.foldlM (addSysnum cfg) p = .error .erange) := by
  induction sysnums generalizing p with
  | nil =>
    refine .inl ⟨by simp, ?_⟩
    simp [SockFprog.addStatements, pure, Except.pure]
  | cons s sysnums ih =>
    rw [List.foldlM_cons, List.forall_mem_cons]
    obtain ⟨hfits, hadd⟩ | ⟨hfits, hadd⟩ := addSysnum_eq cfg p s
    · rw [hadd]
      obtain ⟨hrest, hgo⟩ | ⟨hrest, hgo⟩ := ih (p.addStatements (optCode (entryOf cfg s)))
      · refine .inl ⟨⟨hfits, hrest⟩, hgo.trans ?_⟩
        cases hentry : entryOf cfg s with
        | none => simp [SockFprog.addStatements, optCode, hentry]
        | some e => simp [SockFprog.addStatements, optCode, hentry]
      · exact .inr ⟨fun h => hrest h.2, hgo⟩
    · rw [hadd]
      exact .inr ⟨fun h => hfits h.1, rfl⟩

/-- The statements that the first loop has counted. -/
def Counts.statements (counts : Counts) : ℕ :=
  counts.nTrace * 2 + (counts.ioctlExtra + counts.statExtra)

theorem length_flatMap_cmds (cmds : List UInt32) (verdict : UInt32) :
    (cmds.flatMap fun arg => [Insn.jeq (argOff 1) arg 0 1, .ret verdict]).length =
      2 * cmds.length := by
  induction cmds with
  | nil => rfl
  | cons cmd cmds ih =>
    rw [List.flatMap_cons, List.length_append, ih, List.length_cons]
    simp
    omega

/-- **The first loop counts what the second one adds.** -/
theorem countSysnum_eq (cfg : FilterConfig) (counts : Counts) (s : FilteredSysnum) :
    (countSysnum cfg counts s).statements =
      counts.statements + (optCode (entryOf cfg s)).length := by
  simp only [countSysnum, entryOf, Counts.statements, ← isUserNotifSysnum_iff]
  cases detranslateSysnum cfg.table s.value with
  | none => simp [optCode]
  | some sc =>
    simp only [answerOf]
    split
    · split
      · simp only [Option.map_some, optCode, Option.elim_some, Entry.code, List.length_cons,
          List.length_nil]
        omega
      · simp [optCode]
    · split
      · simp only [Option.map_some, optCode, Option.elim_some, Entry.code, List.length_cons,
          length_flatMap_cmds, ioctlCmds, ioctlArgs1Stmts, List.length_nil]
        omega
      · split
        · simp only [Option.map_some, optCode, Option.elim_some, Entry.code, List.length_cons,
            length_flatMap_cmds, fcntlTracedCmds, fcntlArgs1Stmts, List.length_nil]
          omega
        · split
          · simp only [Option.map_some, optCode, Option.elim_some, Entry.code, List.length_cons,
              List.length_nil]
            omega
          · simp only [Option.map_some, optCode, Option.elim_some, Entry.code, List.length_cons,
              List.length_nil]
            omega

theorem foldl_countSysnum (cfg : FilterConfig) (sysnums : List FilteredSysnum) (counts : Counts) :
    (sysnums.foldl (countSysnum cfg) counts).statements =
      counts.statements + ((sysnums.filterMap (entryOf cfg)).flatMap Entry.code).length := by
  induction sysnums generalizing counts with
  | nil => simp
  | cons s sysnums ih =>
    rw [List.foldl_cons, ih, countSysnum_eq]
    cases hentry : entryOf cfg s with
    | none => simp [optCode, hentry]
    | some e =>
      simp only [optCode, Option.elim_some, List.filterMap_cons_some hentry, List.flatMap_cons,
        List.length_append]
      omega

theorem length_code_le (h : entryOf cfg s = some e) : e.code.length ≤ 16 := by
  have hargs : ∀ number verdict cmds, cmds.length ≤ 7 →
      (Entry.code ⟨number, .args1 verdict cmds⟩).length ≤ 16 := by
    intro number verdict cmds hcmds
    simp only [Entry.code, List.length_cons, length_flatMap_cmds]
    omega
  simp only [entryOf] at h
  split at h
  · simp at h
  · obtain ⟨answer, hanswer, rfl⟩ := Option.map_eq_some_iff.1 h
    simp only [answerOf] at hanswer
    repeat' split at hanswer
    all_goals first
      | (obtain rfl := Option.some.inj hanswer; first | exact hargs _ _ _ (by decide) | simp [Entry.code])
      | simp at hanswer

theorem card_sysnum : Fintype.card Sysnum = 452 := by
  decide +kernel

/-- There are not more entries than system calls, so the program is short. -/
theorem length_entries_code (cfg : FilterConfig) (lists : List (List FilteredSysnum)) :
    ((entries cfg lists).flatMap Entry.code).length ≤ 16 * 452 := by
  have hcode : ∀ sysnums : List FilteredSysnum,
      ((sysnums.filterMap (entryOf cfg)).flatMap Entry.code).length ≤ 16 * sysnums.length := by
    intro sysnums
    induction sysnums with
    | nil => simp
    | cons s sysnums ih =>
      cases hentry : entryOf cfg s with
      | none =>
        rw [List.filterMap_cons_none hentry, List.length_cons]
        omega
      | some e =>
        have hle := length_code_le hentry
        rw [List.filterMap_cons_some hentry, List.flatMap_cons, List.length_append,
          List.length_cons]
        omega
  have hlen := (nodup_filteredSysnums lists).length_le_card
  rw [List.length_map, card_sysnum] at hlen
  exact (hcode _).trans (Nat.mul_le_mul_left 16 hlen)

/-- The start of the program in front of `length` statements. -/
def header (length : ℕ) : List Insn :=
  [.ld archOff, .jeq archOff auditArchAarch64 1 0, .ja (UInt32.ofNat (length + 2)), .ld nrOff]

/-- The program for the entries `es`. -/
def program (es : List Entry) : List Insn :=
  header (es.flatMap Entry.code).length ++ es.flatMap Entry.code ++
    [.ret seccompRetAllow, .ret seccompRetKill]

theorem startArchSection_eq {nTrace extra length : ℕ} (hlen : nTrace * 2 + extra = length)
    (hsmall : length ≤ 16 * 452) :
    SockFprog.new.startArchSection auditArchAarch64 nTrace extra = .ok ⟨header length, 4⟩ := by
  have hnext : 1 + nTrace * 2 + extra + 1 = length + 2 := by omega
  simp only [SockFprog.startArchSection, hnext]
  rw [if_neg (by omega)]
  rfl

theorem endArchSection_eq {nTrace extra : ℕ} {code : List Insn}
    (hlen : nTrace * 2 + extra = code.length) :
    SockFprog.endArchSection ⟨header code.length ++ code, 4⟩ nTrace extra =
      .ok ⟨header code.length ++ code ++ [.ret seccompRetAllow], 4⟩ := by
  refine if_neg (not_not_intro ?_)
  simp only [SockFprog.addStatements, List.length_append, header, List.length_cons,
    List.length_nil]
  omega

/-- **What `set_seccomp_filters` builds.** -/
theorem setSeccompFilters_eq (cfg : FilterConfig) (lists : List (List FilteredSysnum)) :
    ((∀ s ∈ filteredSysnums lists, Fits cfg s) ∧
        setSeccompFilters cfg (filteredSysnums lists) = .ok (program (entries cfg lists))) ∨
      (¬ (∀ s ∈ filteredSysnums lists, Fits cfg s) ∧
        setSeccompFilters cfg (filteredSysnums lists) = .error .erange) := by
  have hsmall := length_entries_code cfg lists
  have hcount := foldl_countSysnum cfg (filteredSysnums lists) ⟨0, 0, 0⟩
  rw [← entries] at hcount
  simp only [Counts.statements, Nat.zero_mul, Nat.zero_add] at hcount
  simp only [setSeccompFilters, seccompArchs, List.foldlM_cons, List.foldlM_nil, addArchSection,
    startArchSection_eq hcount hsmall, bind, Except.bind, pure, Except.pure]
  have hfold := foldlM_addSysnum cfg (filteredSysnums lists)
    ⟨header ((entries cfg lists).flatMap Entry.code).length, 4⟩
  rw [← entries] at hfold
  obtain ⟨hfits, hgo⟩ | ⟨hfits, hgo⟩ := hfold
  · refine .inl ⟨hfits, ?_⟩
    simp only [hgo, SockFprog.addStatements, endArchSection_eq hcount,
      SockFprog.finalizeProgramFilter, SockFprog.setLen, List.append_assoc, List.cons_append,
      List.nil_append]
    rw [program, List.append_assoc, List.take_of_length_le]
    have hmod : ∀ n : ℕ, n ≤ 4 + 16 * 452 + 2 → n ≤ n % 2 ^ 16 := by omega
    refine hmod _ ?_
    simp only [List.length_append, header, List.length_cons, List.length_nil]
    omega
  · refine .inr ⟨hfits, ?_⟩
    simp only [hgo]

/-! ### Running an entry -/

namespace Entry

/-- The entry reads the number again before it compares it. -/
def isFlag (e : Entry) : Bool :=
  match e.answer with
  | .flag _ => true
  | _ => false

/-- How the code of an entry ends. -/
def exit (data : UInt32 → UInt32) (e : Entry) (acc : Acc) : Exit :=
  match e.answer with
  | .ret verdict => if acc.value = e.number then .returned verdict else .passed 0 acc
  | .args1 verdict cmds =>
    if acc.value = e.number then
      if data (argOff 1) ∈ cmds then .returned verdict
      else .passed 0 ⟨data (argOff 1), some (argOff 1)⟩
    else .passed 0 acc
  | .flag argIndex =>
    if data nrOff = e.number then
      .returned (if data (argOff argIndex + 4) = statShimRawTag then seccompRetAllow
        else seccompRetUserNotif)
    else .passed 0 ⟨data nrOff, some nrOff⟩

end Entry

/-- Every comparison of a run has looked at the word it is meant for. -/
def Proper (looks : List (UInt32 × Option UInt32)) : Prop := ∀ look ∈ looks, look.2 = some look.1

theorem proper_append {l l' : List (UInt32 × Option UInt32)} :
    Proper (l ++ l') ↔ Proper l ∧ Proper l' := List.forall_mem_append

section

variable (data : UInt32 → UInt32)

/-- The comparisons of the command. -/
theorem exec_cmds (cmds : List UInt32) (verdict : UInt32) :
    (exec data (cmds.flatMap fun arg => [.jeq (argOff 1) arg 0 1, .ret verdict]) 0
        ⟨data (argOff 1), some (argOff 1)⟩).exit =
      (if data (argOff 1) ∈ cmds then .returned verdict
        else .passed 0 ⟨data (argOff 1), some (argOff 1)⟩) ∧
    Proper (exec data (cmds.flatMap fun arg => [.jeq (argOff 1) arg 0 1, .ret verdict]) 0
        ⟨data (argOff 1), some (argOff 1)⟩).looks := by
  induction cmds with
  | nil => simp [Proper]
  | cons cmd cmds ih =>
    rw [List.flatMap_cons, List.cons_append, List.cons_append, List.nil_append, exec_jeq]
    by_cases h : data (argOff 1) = cmd
    · simp [h, Proper]
    · simp only [h, if_false, exit_after, looks_after, List.mem_cons, false_or]
      refine ⟨ih.1, ?_⟩
      rw [proper_append]
      exact ⟨by simp [Proper], ih.2⟩

/-- **One entry.**  Its comparison of the number is proper if the accumulator holds
the number, or if the entry reads it again. -/
theorem exec_code (he : ∀ verdict cmds, e.answer = .args1 verdict cmds → cmds.length ≤ 7)
    (acc : Acc) :
    (exec data e.code 0 acc).exit = e.exit data acc ∧
      (Proper (exec data e.code 0 acc).looks ↔ acc.source = some nrOff ∨ e.isFlag = true) := by
  obtain ⟨number, answer⟩ := e
  cases answer with
  | ret verdict =>
    by_cases h : acc.value = number
    · simp [Entry.code, Entry.exit, Entry.isFlag, h, Proper]
    · simp [Entry.code, Entry.exit, Entry.isFlag, h, Proper]
  | args1 verdict cmds =>
    have hlen : cmds.length ≤ 7 := he verdict cmds rfl
    simp only [Entry.code, exec_jeq, Entry.exit, Entry.isFlag]
    by_cases h : acc.value = number
    · obtain ⟨hexit, hlooks⟩ := exec_cmds data cmds verdict
      simp only [h, if_true, UInt8.toNat_zero, exec_ld, exit_after, looks_after]
      refine ⟨hexit, ?_⟩
      rw [proper_append, and_iff_left hlooks]
      simp [Proper]
    · have hskip : (UInt8.ofNat (1 + 2 * cmds.length)).toNat = 1 + 2 * cmds.length := by
        rw [UInt8.toNat_ofNat']
        omega
      have hlength : (Insn.ld (argOff 1) :: cmds.flatMap fun arg =>
          [.jeq (argOff 1) arg 0 1, .ret verdict]).length = 1 + 2 * cmds.length := by
        rw [List.length_cons, length_flatMap_cmds, Nat.add_comm]
      simp only [h, if_false, hskip, exit_after, looks_after]
      rw [exec_of_length_le data hlength.le, hlength, Nat.sub_self]
      simp [Proper]
  | flag argIndex =>
    by_cases h : data nrOff = number
    · by_cases htag : data (argOff argIndex + 4) = statShimRawTag
      · simp [Entry.code, Entry.exit, Entry.isFlag, h, htag, Proper]
      · simp [Entry.code, Entry.exit, Entry.isFlag, h, htag, Proper]
    · simp [Entry.code, Entry.exit, Entry.isFlag, h, Proper]

/-! ### Running the entries -/

/-- How the code of the entries ends. -/
def exitOf (data : UInt32 → UInt32) : List Entry → Acc → Exit
  | [], acc => .passed 0 acc
  | e :: es, acc =>
    match e.exit data acc with
    | .returned verdict => .returned verdict
    | .passed _ acc => exitOf data es acc

/-- The comparisons of the number that the code of the entries makes are proper. -/
def ProperOf (data : UInt32 → UInt32) : List Entry → Acc → Prop
  | [], _ => True
  | e :: es, acc =>
    (acc.source = some nrOff ∨ e.isFlag = true) ∧
      match e.exit data acc with
      | .returned _ => True
      | .passed _ acc => ProperOf data es acc

theorem exit_passed {acc acc' : Acc} {skip : ℕ} (h : e.exit data acc = .passed skip acc') :
    skip = 0 := by
  simp only [Entry.exit] at h
  repeat' split at h
  all_goals simp at h
  all_goals exact h.1.symm

theorem exitOf_passed {acc acc' : Acc} {skip : ℕ} (h : exitOf data es acc = .passed skip acc') :
    skip = 0 := by
  induction es generalizing acc with
  | nil =>
    rw [exitOf, Exit.passed.injEq] at h
    exact h.1.symm
  | cons e es ih =>
    rw [exitOf] at h
    split at h
    · simp at h
    · exact ih h

theorem exec_entries
    (hes : ∀ e ∈ es, ∀ verdict cmds, e.answer = .args1 verdict cmds → cmds.length ≤ 7) (acc : Acc) :
    (exec data (es.flatMap Entry.code) 0 acc).exit = exitOf data es acc ∧
      (Proper (exec data (es.flatMap Entry.code) 0 acc).looks ↔ ProperOf data es acc) := by
  induction es generalizing acc with
  | nil => simp [exitOf, ProperOf, Proper]
  | cons e es ih =>
    obtain ⟨hexit, hlooks⟩ := exec_code data (hes e (by simp)) acc
    rw [List.flatMap_cons, exec_append, hexit, exitOf, ProperOf]
    cases hend : e.exit data acc with
    | returned verdict => exact ⟨hexit.trans hend, hlooks.trans (and_iff_left trivial).symm⟩
    | passed skip acc' =>
      obtain rfl := exit_passed data hend
      obtain ⟨hexit', hlooks'⟩ := ih (fun e he => hes e (by simp [he])) acc'
      refine ⟨hexit', ?_⟩
      rw [looks_after, proper_append, hlooks, hlooks']

/-- The accumulator with the number of the call. -/
def nrAcc : Acc := ⟨data nrOff, some nrOff⟩

/-- The accumulator with the command of the call. -/
def cmdAcc : Acc := ⟨data (argOff 1), some (argOff 1)⟩

/-- The entries of other numbers. -/
theorem exitOf_other {pre : List Entry} (hpre : ∀ e ∈ pre, e.number ≠ data nrOff)
    (es : List Entry) :
    exitOf data (pre ++ es) (nrAcc data) = exitOf data es (nrAcc data) ∧
      (ProperOf data (pre ++ es) (nrAcc data) ↔ ProperOf data es (nrAcc data)) := by
  induction pre with
  | nil => exact ⟨rfl, Iff.rfl⟩
  | cons e pre ih =>
    have hne : ¬ data nrOff = e.number := fun h => hpre e (by simp) h.symm
    have hexit : e.exit data (nrAcc data) = .passed 0 (nrAcc data) := by
      simp only [Entry.exit, nrAcc, hne, if_false]
      split <;> rfl
    rw [List.cons_append, exitOf, ProperOf, hexit]
    refine ⟨(ih fun e he => hpre e (by simp [he])).1, ?_⟩
    rw [and_iff_right (.inl rfl)]
    exact (ih fun e he => hpre e (by simp [he])).2

/-- The verdict of an entry for a number it takes the command for. -/
def Entry.answerTo (e : Entry) (command : UInt32) : Option UInt32 :=
  match e.answer with
  | .ret verdict => some verdict
  | .args1 verdict cmds => if command ∈ cmds then some verdict else none
  | .flag _ => none

/-- The verdict of the entries that take the command for the number. -/
def answered (command : UInt32) : List Entry → Option UInt32
  | [] => none
  | e :: es =>
    if e.isFlag then none
    else if e.number = command then (e.answerTo command).or (answered command es)
    else answered command es

/-- The verdict behind the entries. -/
def verdictOf : Exit → UInt32
  | .returned verdict => verdict
  | .passed _ _ => seccompRetAllow

/-- **Behind an argument filter** the entries compare the command until one reads
the number again. -/
theorem verdictOf_exitOf_cmd (hpost : ∀ e ∈ post, e.number ≠ data nrOff) :
    verdictOf (exitOf data post (cmdAcc data)) =
      (answered (data (argOff 1)) post).getD seccompRetAllow := by
  induction post with
  | nil => rfl
  | cons e post ih =>
    have hne : ¬ data nrOff = e.number := fun h => hpost e (by simp) h.symm
    have hrest : ∀ e' ∈ post, e'.number ≠ data nrOff := fun e' he' => hpost e' (by simp [he'])
    rw [exitOf, answered]
    obtain ⟨number, answer⟩ := e
    dsimp only at hne
    cases answer with
    | flag argIndex =>
      have hother := (exitOf_other data hrest []).1
      rw [List.append_nil] at hother
      have hexit : Entry.exit data ⟨number, .flag argIndex⟩ (cmdAcc data) =
          .passed 0 (nrAcc data) := by
        simp only [Entry.exit, if_neg hne, nrAcc]
      rw [hexit]
      dsimp only
      rw [hother]
      rfl
    | ret verdict =>
      by_cases h : number = data (argOff 1)
      · simp [Entry.exit, Entry.isFlag, Entry.answerTo, cmdAcc, h, verdictOf]
      · have h' : ¬ data (argOff 1) = number := fun h'' => h h''.symm
        simpa [Entry.exit, Entry.isFlag, cmdAcc, h, h'] using ih hrest
    | args1 verdict cmds =>
      by_cases h : number = data (argOff 1)
      · by_cases hmem : data (argOff 1) ∈ cmds
        · simp [Entry.exit, Entry.isFlag, Entry.answerTo, cmdAcc, h, hmem, verdictOf]
        · simpa [Entry.exit, Entry.isFlag, Entry.answerTo, cmdAcc, h, hmem] using ih hrest
      · have h' : ¬ data (argOff 1) = number := fun h'' => h h''.symm
        simpa [Entry.exit, Entry.isFlag, cmdAcc, h, h'] using ih hrest

theorem properOf_cmd (hpost : ∀ e ∈ post, e.number ≠ data nrOff) :
    ProperOf data post (cmdAcc data) ↔ ∀ e ∈ post.head?, e.isFlag = true := by
  cases post with
  | nil => simp [ProperOf]
  | cons e post =>
    have hne : ¬ data nrOff = e.number := fun h => hpost e (by simp) h.symm
    have hrest : ∀ e' ∈ post, e'.number ≠ data nrOff := fun e' he' => hpost e' (by simp [he'])
    have hsource : ¬ (cmdAcc data).source = some nrOff := by
      simp only [cmdAcc]
      decide
    rw [ProperOf]
    obtain ⟨number, answer⟩ := e
    dsimp only at hne
    cases answer with
    | flag argIndex =>
      have hother := (exitOf_other data hrest []).2
      rw [List.append_nil] at hother
      simp only [Entry.exit, hne, if_false, Entry.isFlag]
      simpa [ProperOf, nrAcc] using hother
    | ret verdict => simp [Entry.isFlag, hsource]
    | args1 verdict cmds => simp [Entry.isFlag, hsource]

/-- The verdict a call should get from an answer. -/
def Answer.specified (a : Answer) (data : UInt32 → UInt32) : UInt32 :=
  match a with
  | .ret verdict => verdict
  | .args1 verdict cmds => if data (argOff 1) ∈ cmds then verdict else seccompRetAllow
  | .flag argIndex =>
    if data (argOff argIndex + 4) = statShimRawTag then seccompRetAllow else seccompRetUserNotif

/-- The call goes through an argument filter that does not list its command, and
`post` are the entries behind it. -/
def PassedOver (es : List Entry) (data : UInt32 → UInt32) (post : List Entry) : Prop :=
  ∃ pre e verdict cmds, es = pre ++ e :: post ∧ e.number = data nrOff ∧
    e.answer = .args1 verdict cmds ∧ data (argOff 1) ∉ cmds

/-- The entries from the start of the program on, when one of them is the call's. -/
theorem exitOf_entry {pre post : List Entry} {e : Entry} (hpre : ∀ e' ∈ pre, e'.number ≠ data nrOff)
    (he : e.number = data nrOff) :
    (¬ (∃ verdict cmds, e.answer = .args1 verdict cmds ∧ data (argOff 1) ∉ cmds) ∧
        exitOf data (pre ++ e :: post) (nrAcc data) = .returned (e.answer.specified data) ∧
        ProperOf data (pre ++ e :: post) (nrAcc data)) ∨
      ((∃ verdict cmds, e.answer = .args1 verdict cmds ∧ data (argOff 1) ∉ cmds) ∧
        exitOf data (pre ++ e :: post) (nrAcc data) = exitOf data post (cmdAcc data) ∧
        (ProperOf data (pre ++ e :: post) (nrAcc data) ↔ ProperOf data post (cmdAcc data))) := by
  obtain ⟨hexit, hproper⟩ := exitOf_other data hpre (e :: post)
  rw [hexit, hproper, exitOf, ProperOf]
  obtain ⟨number, answer⟩ := e
  dsimp only at he
  subst he
  cases answer with
  | ret verdict => simp [Entry.exit, nrAcc, Answer.specified]
  | flag argIndex => simp [Entry.exit, Entry.isFlag, Answer.specified]
  | args1 verdict cmds =>
    by_cases hmem : data (argOff 1) ∈ cmds
    · simp [Entry.exit, nrAcc, Answer.specified, hmem]
    · simp [Entry.exit, nrAcc, cmdAcc, hmem]

/-- The numbers are different, so there is one entry to be passed over. -/
theorem passedOver_iff {pre post post' : List Entry} {e : Entry}
    (hpre : ∀ e' ∈ pre, e'.number ≠ data nrOff) (hpost : ∀ e' ∈ post, e'.number ≠ data nrOff)
    (he : e.number = data nrOff) :
    PassedOver (pre ++ e :: post) data post' ↔
      (∃ verdict cmds, e.answer = .args1 verdict cmds ∧ data (argOff 1) ∉ cmds) ∧
        post' = post := by
  constructor
  · intro h
    obtain ⟨pre', e', verdict, cmds, hes, hnumber, hanswer, hcmd⟩ := h
    have hsame := (List.append_cons_inj_of_notMem (fun h => hpre e' h hnumber)
      fun h => hpost e' h hnumber).1 hes
    obtain ⟨-, rfl, rfl⟩ := hsame
    exact ⟨⟨verdict, cmds, hanswer, hcmd⟩, rfl⟩
  · intro h
    obtain ⟨⟨verdict, cmds, hanswer, hcmd⟩, rfl⟩ := h
    exact ⟨pre, e, verdict, cmds, rfl, he, hanswer, hcmd⟩

theorem answered_eq_some_iff {command verdict : UInt32} {es : List Entry}
    (hnodup : (es.map (·.number)).Nodup) :
    answered command es = some verdict ↔
      ∃ mid f post, es = mid ++ f :: post ∧ (∀ e ∈ mid, e.isFlag = false) ∧
        f.number = command ∧ f.answerTo command = some verdict := by
  induction es with
  | nil => simp [answered]
  | cons e es ih =>
    rw [List.map_cons, List.nodup_cons] at hnodup
    obtain ⟨hnot, hnodup⟩ := hnodup
    rw [answered]
    constructor
    · intro h
      by_cases hflag : e.isFlag = true
      · simp [hflag] at h
      have hhead : ∀ mid : List Entry, (∀ e' ∈ mid, e'.isFlag = false) →
          ∀ e' ∈ e :: mid, e'.isFlag = false := by
        intro mid hmid
        rw [List.forall_mem_cons]
        exact ⟨by simpa using hflag, hmid⟩
      have hbehind : answered command es = some verdict →
          ∃ mid f post, e :: es = mid ++ f :: post ∧ (∀ e ∈ mid, e.isFlag = false) ∧
            f.number = command ∧ f.answerTo command = some verdict := by
        intro h'
        obtain ⟨mid, f, post, hes, hmid, hf⟩ := (ih hnodup).1 h'
        exact ⟨e :: mid, f, post, by rw [hes]; rfl, hhead mid hmid, hf⟩
      rw [if_neg hflag] at h
      split at h
      · rename_i hnumber
        obtain h | ⟨-, h⟩ := Option.or_eq_some_iff.1 h
        · exact ⟨[], e, es, rfl, by simp, hnumber, h⟩
        · exact hbehind h
      · exact hbehind h
    · intro h
      obtain ⟨mid, f, post, hes, hmid, hf, hanswer⟩ := h
      cases mid with
      | nil =>
        obtain ⟨rfl, rfl⟩ := List.cons.inj hes
        have hflag : e.isFlag = false := by
          simp only [Entry.answerTo] at hanswer
          simp only [Entry.isFlag]
          split <;> simp_all
        simp [hflag, hf, hanswer]
      | cons e' mid =>
        obtain ⟨rfl, rfl⟩ := List.cons.inj hes
        have hne : ¬ e.number = command := by
          intro heq
          refine hnot (heq ▸ hf ▸ ?_)
          simp
        rw [if_neg (by simp [hmid e (by simp)]), if_neg hne]
        exact (ih hnodup).2 ⟨mid, f, post, rfl, fun e' he' => hmid e' (by simp [he']), hf, hanswer⟩

/-- The verdict behind an argument filter that does not list the command. -/
theorem verdict_behind {command : UInt32} (hnodup : (post.map (·.number)).Nodup) :
    ((answered command post).getD seccompRetAllow = seccompRetAllow ↔
        ¬ ∃ mid f post' verdict, mid ++ f :: post' = post ∧ (∀ e ∈ mid, e.isFlag = false) ∧
          f.number = command ∧ f.answerTo command = some verdict ∧ verdict ≠ seccompRetAllow) ∧
      ((answered command post).getD seccompRetAllow = seccompRetAllow ∧
          (∀ e ∈ post.head?, e.isFlag = true) ↔
        ¬ ∃ f post', f :: post' = post ∧ f.isFlag = false) := by
  constructor
  · have hanswered := @answered_eq_some_iff command
    cases hans : answered command post with
    | none =>
      refine iff_of_true rfl fun h => ?_
      obtain ⟨mid, f, post', verdict, hpost, hmid, hf, hanswer, -⟩ := h
      have hsome := (hanswered hnodup).2 ⟨mid, f, post', hpost.symm, hmid, hf, hanswer⟩
      rw [hans] at hsome
      simp at hsome
    | some verdict =>
      rw [Option.getD_some]
      constructor
      · intro hallow h
        obtain ⟨mid, f, post', verdict', hpost, hmid, hf, hanswer, hne⟩ := h
        have hsome := (hanswered hnodup).2 ⟨mid, f, post', hpost.symm, hmid, hf, hanswer⟩
        rw [hans, Option.some.injEq] at hsome
        exact hne (hsome ▸ hallow)
      · intro h
        by_contra hne
        obtain ⟨mid, f, post', hpost, hmid, hf, hanswer⟩ := (hanswered hnodup).1 hans
        exact h ⟨mid, f, post', verdict, hpost.symm, hmid, hf, hanswer, hne⟩
  · cases post with
    | nil => simp [answered]
    | cons f post =>
      cases hflag : f.isFlag with
      | true => simp [answered, hflag]
      | false => simp [hflag]

/-- The entries give the verdict `target` unless a command is answered for a number,
and look at the number only unless a command is compared with one. -/
theorem entries_verdict (hnodup : (es.map (·.number)).Nodup) {target : UInt32}
    (hsome : ∀ e ∈ es, e.number = data nrOff → e.answer.specified data = target)
    (hnone : (∀ e ∈ es, e.number ≠ data nrOff) → target = seccompRetAllow) :
    (verdictOf (exitOf data es (nrAcc data)) = target ↔
        ¬ ∃ mid f post verdict, PassedOver es data (mid ++ f :: post) ∧
          (∀ e ∈ mid, e.isFlag = false) ∧ f.number = data (argOff 1) ∧
          f.answerTo (data (argOff 1)) = some verdict ∧ verdict ≠ seccompRetAllow) ∧
      (verdictOf (exitOf data es (nrAcc data)) = target ∧ ProperOf data es (nrAcc data) ↔
        ¬ ∃ f post, PassedOver es data (f :: post) ∧ f.isFlag = false) := by
  by_cases hex : ∃ e ∈ es, e.number = data nrOff
  · obtain ⟨e, hmem, he⟩ := hex
    have htarget := hsome e hmem he
    obtain ⟨pre, post, rfl⟩ := List.append_of_mem hmem
    rw [List.map_append, List.map_cons, List.nodup_middle, List.nodup_cons, he,
      ← List.map_append] at hnodup
    obtain ⟨hnot, hnodup⟩ := hnodup
    have hothers : ∀ e' ∈ pre ++ post, e'.number ≠ data nrOff :=
      fun e' he' heq => hnot (heq ▸ List.mem_map_of_mem he')
    have hpre : ∀ e' ∈ pre, e'.number ≠ data nrOff := fun e' he' => hothers e' (by simp [he'])
    have hpost : ∀ e' ∈ post, e'.number ≠ data nrOff := fun e' he' => hothers e' (by simp [he'])
    have hover := fun post' => @passedOver_iff data pre post post' e hpre hpost he
    obtain ⟨hlisted, hexit, hproper⟩ | ⟨hunlisted, hexit, hproper⟩ :=
      @exitOf_entry data pre post e hpre he
    · have hnever : ∀ post', ¬ PassedOver (pre ++ e :: post) data post' :=
        fun post' h => hlisted ((hover post').1 h).1
      simp [hnever, hexit, hproper, verdictOf, htarget]
    · have hallow : target = seccompRetAllow := by
        obtain ⟨verdict, cmds, hanswer, hcmd⟩ := hunlisted
        simpa [hanswer, Answer.specified, hcmd] using htarget.symm
      have hbehind : ∀ post', PassedOver (pre ++ e :: post) data post' ↔ post' = post := by
        intro post'
        rw [hover, and_iff_right hunlisted]
      rw [hexit, verdictOf_exitOf_cmd data hpost, hproper, properOf_cmd data hpost, hallow]
      simp only [hbehind]
      exact verdict_behind (by
        rw [List.map_append] at hnodup
        exact hnodup.of_append_right)
  · have hother : ∀ e ∈ es, e.number ≠ data nrOff := fun e he heq => hex ⟨e, he, heq⟩
    have hnever : ∀ post, ¬ PassedOver es data post := by
      intro post h
      obtain ⟨pre, e, verdict, cmds, rfl, hnumber, -⟩ := h
      exact hother e (by simp) hnumber
    obtain ⟨hexit, hproper⟩ := exitOf_other data hother []
    rw [List.append_nil] at hexit hproper
    rw [hexit, hproper, hnone hother]
    simp [hnever, exitOf, ProperOf, verdictOf]

/-- **The program runs its entries**, for a call of its own architecture. -/
theorem filter_program
    (hes : ∀ e ∈ es, ∀ verdict cmds, e.answer = .args1 verdict cmds → cmds.length ≤ 7)
    (hlen : (es.flatMap Entry.code).length ≤ 16 * 452) :
    (filter (program es) data).exit = .returned
        (if data archOff = auditArchAarch64 then verdictOf (exitOf data es (nrAcc data))
          else seccompRetKill) ∧
      (Proper (filter (program es) data).looks ↔
        data archOff = auditArchAarch64 → ProperOf data es (nrAcc data)) := by
  rw [filter_eq_exec, program, List.append_assoc]
  by_cases harch : data archOff = auditArchAarch64
  · obtain ⟨hexit, hproper⟩ := exec_entries data hes (nrAcc data)
    have hbody : exec data (es.flatMap Entry.code ++ [.ret seccompRetAllow, .ret seccompRetKill]) 0
        (nrAcc data) = ⟨(exec data (es.flatMap Entry.code) 0 (nrAcc data)).looks,
          .returned (verdictOf (exitOf data es (nrAcc data)))⟩ := by
      rw [exec_append, hexit]
      cases hend : exitOf data es (nrAcc data) with
      | returned verdict =>
        rw [hend] at hexit
        exact Trace.ext rfl hexit
      | passed skip acc =>
        obtain rfl := exitOf_passed data hend
        simp [verdictOf, Trace.after]
    have hskip : exec data (header (es.flatMap Entry.code).length ++
        (es.flatMap Entry.code ++ [.ret seccompRetAllow, .ret seccompRetKill])) 0 .zero =
          (exec data (es.flatMap Entry.code ++ [.ret seccompRetAllow, .ret seccompRetKill]) 0
            (nrAcc data)).after [(archOff, some archOff)] := by
      simp [header, harch, nrAcc]
    rw [hskip, hbody, exit_after, looks_after, proper_append, hproper, if_pos harch]
    simp [Proper, harch]
  · generalize es.flatMap Entry.code = code at hlen ⊢
    have hlength : (Insn.ld nrOff :: (code ++ [.ret seccompRetAllow])).length =
        code.length + 2 := by
      simp
    have hja : (UInt32.ofNat (code.length + 2)).toNat =
        code.length + 2 := by
      rw [UInt32.toNat_ofNat']
      omega
    have hskip : exec data (header code.length ++
        (code ++ [.ret seccompRetAllow, .ret seccompRetKill])) 0 .zero =
          (exec data ((Insn.ld nrOff :: (code ++ [.ret seccompRetAllow])) ++
            [.ret seccompRetKill]) (code.length + 2)
              ⟨data archOff, some archOff⟩).after [(archOff, some archOff)] := by
      simp only [header, List.cons_append, List.nil_append, List.append_assoc, exec_ld, exec_jeq,
        harch, if_false, UInt8.toNat_zero, exec_ja, hja]
    rw [hskip, exec_append, exec_of_length_le data hlength.le, hlength, Nat.sub_self]
    simp [Proper, harch]

end

/-! ### The entries of the merged lists -/

theorem detranslateSysnum_eq_some {table : Sysnums} {sc : ℕ}
    (h : detranslateSysnum table value = some sc) : table[sc]? = some (some value) := by
  obtain ⟨hlt, hvalue, -⟩ := List.findIdx?_eq_some_iff_getElem.1 h
  rw [List.getElem?_eq_getElem hlt, Option.some.injEq]
  simpa using hvalue

theorem detranslateSysnum_injective {table : Sysnums} {value' : Sysnum} {sc : ℕ}
    (h : detranslateSysnum table value = some sc) (h' : detranslateSysnum table value' = some sc) :
    value = value' := by
  have hsame := (detranslateSysnum_eq_some h).symm.trans (detranslateSysnum_eq_some h')
  simpa using hsame

theorem entryOf_eq_some_iff :
    entryOf cfg s = some e ↔ ∃ sc, detranslateSysnum cfg.table s.value = some sc ∧
      answerOf cfg s = some e.answer ∧ e.number = UInt32.ofNat sc := by
  simp only [entryOf]
  obtain ⟨number, answer⟩ := e
  cases detranslateSysnum cfg.table s.value with
  | none => simp
  | some sc =>
    simp only [Option.map_eq_some_iff, Entry.mk.injEq, Option.some.injEq]
    constructor
    · intro h
      obtain ⟨answer', hanswer, rfl, rfl⟩ := h
      exact ⟨sc, rfl, hanswer, rfl⟩
    · intro h
      obtain ⟨sc', rfl, hanswer, rfl⟩ := h
      exact ⟨answer, hanswer, rfl, rfl⟩

/-- The entry of a number belongs to the system call of that number. -/
theorem entryOf_number (hfits : Fits cfg s) (h : entryOf cfg s = some e) :
    detranslateSysnum cfg.table s.value = some e.number.toNat ∧ answerOf cfg s = some e.answer := by
  obtain ⟨sc, hsc, hanswer, hnumber⟩ := entryOf_eq_some_iff.1 h
  have hlt := hfits sc hsc (by rw [hanswer]; rfl)
  rw [hnumber, UInt32.toNat_ofNat', Nat.mod_eq_of_lt hlt]
  exact ⟨hsc, hanswer⟩

section

variable {cfg : FilterConfig} {lists : List (List FilteredSysnum)}

theorem nodup_entries (hfits : ∀ s ∈ filteredSysnums lists, Fits cfg s) :
    ((entries cfg lists).map (·.number)).Nodup := by
  have hgo : ∀ sysnums : List FilteredSysnum, (∀ s ∈ sysnums, Fits cfg s) →
      (sysnums.map (·.value)).Nodup →
      ((sysnums.filterMap (entryOf cfg)).map (·.number)).Nodup := by
    intro sysnums hfits hnodup
    induction sysnums with
    | nil => simp
    | cons s sysnums ih =>
      rw [List.map_cons, List.nodup_cons] at hnodup
      rw [List.forall_mem_cons] at hfits
      have hrest := ih hfits.2 hnodup.2
      cases hentry : entryOf cfg s with
      | none =>
        rw [List.filterMap_cons_none hentry]
        exact hrest
      | some e =>
        rw [List.filterMap_cons_some hentry, List.map_cons, List.nodup_cons]
        refine ⟨fun hmem => ?_, hrest⟩
        obtain ⟨e', he', hsame⟩ := List.mem_map.1 hmem
        obtain ⟨s', hs', hentry'⟩ := List.mem_filterMap.1 he'
        have hsc := (entryOf_number hfits.1 hentry).1
        have hsc' := (entryOf_number (hfits.2 s' hs') hentry').1
        rw [hsame] at hsc'
        refine hnodup.1 ?_
        rw [detranslateSysnum_injective hsc hsc']
        exact List.mem_map_of_mem hs'
  exact hgo _ hfits (nodup_filteredSysnums lists)

theorem length_cmds_le (he : e ∈ entries cfg lists) {verdict : UInt32} {cmds : List UInt32}
    (hanswer : e.answer = .args1 verdict cmds) : cmds.length ≤ 7 := by
  obtain ⟨s, -, hentry⟩ := List.mem_filterMap.1 he
  obtain ⟨sc, -, hans, -⟩ := entryOf_eq_some_iff.1 hentry
  rw [hanswer] at hans
  simp only [answerOf] at hans
  repeat' split at hans
  all_goals simp at hans
  all_goals
    rw [← hans.2]
    decide

/-- The flags of a merged system call are those of the lists. -/
theorem flags_of_mem (hs : s ∈ filteredSysnums lists) :
    s.value ∈ lists.flatten.map (·.value) ∧ s.flags = listedFlags lists s.value := by
  have hfind : (filteredSysnums lists).find? (·.value = s.value) = some s := by
    have hnodup := nodup_filteredSysnums lists
    generalize filteredSysnums lists = sysnums at hs hnodup
    induction sysnums with
    | nil => simp at hs
    | cons s' sysnums ih =>
      rw [List.map_cons, List.nodup_cons] at hnodup
      obtain rfl | hs := List.mem_cons.1 hs
      · simp
      · have hne : ¬ s'.value = s.value := fun h => hnodup.1 (h ▸ List.mem_map_of_mem hs)
        rw [List.find?_cons_of_neg (by simpa using hne)]
        exact ih hs hnodup.2
  have hflags := flagsOf_filteredSysnums lists s.value
  rw [flagsOf, hfind, Option.map_some] at hflags
  split at hflags
  · exact ⟨‹_›, Option.some.inj hflags⟩
  · simp at hflags

/-- Every listed system call is in the merged list. -/
theorem mem_filteredSysnums (h : value ∈ lists.flatten.map (·.value)) :
    ⟨value, listedFlags lists value⟩ ∈ filteredSysnums lists := by
  have hflags := flagsOf_filteredSysnums lists value
  rw [if_pos h, flagsOf, Option.map_eq_some_iff] at hflags
  obtain ⟨s, hs, hsame⟩ := hflags
  have hvalue : s.value = value := by simpa using List.find?_some hs
  rw [← hsame, ← hvalue]
  exact List.mem_of_find?_eq_some hs

theorem specifiedFor_eq (s : FilteredSysnum) (d : SeccompData) :
    specifiedFor cfg s d =
      match answerOf cfg s with
      | none => seccompRetAllow
      | some answer => answer.specified d.word := by
  simp only [specifiedFor, answerOf]
  by_cases hshim : cfg.statShim = true ∧ isStatShimSysnum s.value cfg.link2symlink = true
  · rw [if_pos hshim, if_pos hshim]
    by_cases hnotif : cfg.userNotif = true ∧ isUserNotifSysnum s.value = true
    · rw [if_pos hnotif, if_pos hnotif]
      by_cases hstatx : s.value = .statx
      · simp only [hstatx, if_true]
        rfl
      · simp only [hstatx, if_false]
        rfl
    · rw [if_neg hnotif, if_neg hnotif]
  · rw [if_neg hshim, if_neg hshim]
    by_cases hioctl : s.value = .ioctl
    · rw [if_pos hioctl, if_pos hioctl]
      rfl
    · rw [if_neg hioctl, if_neg hioctl]
      by_cases hfcntl : s.value = .fcntl ∨ s.value = .fcntl64
      · rw [if_pos hfcntl, if_pos hfcntl]
        rfl
      · rw [if_neg hfcntl, if_neg hfcntl]
        by_cases hnotif : cfg.userNotif = true ∧ isUserNotifSysnum s.value = true
        · rw [if_pos hnotif, if_pos hnotif]
          rfl
        · rw [if_neg hnotif, if_neg hnotif]
          rfl

/-- The call of a listed number gets the verdict of the number's entry. -/
theorem specified_of_entry (hfits : ∀ s ∈ filteredSysnums lists, Fits cfg s) {d : SeccompData}
    (harch : d.arch = auditArchAarch64) (he : e ∈ entries cfg lists) (hnumber : e.number = d.nr) :
    e.answer.specified d.word = specified cfg lists d := by
  obtain ⟨s, hs, hentry⟩ := List.mem_filterMap.1 he
  obtain ⟨hsc, hanswer⟩ := entryOf_number (hfits s hs) hentry
  obtain ⟨hvalue, hflags⟩ := flags_of_mem hs
  obtain ⟨s₁, hs₁, hsame₁⟩ := List.mem_map.1 hvalue
  rw [hnumber] at hsc
  have hlisted : listed cfg.table lists d.nr = some s := by
    cases hfind : lists.flatten.find? fun s =>
        decide (detranslateSysnum cfg.table s.value = some d.nr.toNat) with
    | none =>
      have hnot := List.find?_eq_none.1 hfind s₁ hs₁
      rw [hsame₁] at hnot
      exact absurd hsc (by simpa using hnot)
    | some s' =>
      have hsc' : detranslateSysnum cfg.table s'.value = some d.nr.toNat := by
        simpa using List.find?_some hfind
      have hsame := detranslateSysnum_injective hsc' hsc
      rw [listed, hfind, Option.map_some, hsame, ← hflags]
  rw [specified, if_neg (not_not_intro harch), hlisted]
  simp only [specifiedFor_eq, hanswer]

/-- The call of a number without an entry is allowed. -/
theorem specified_of_no_entry {d : SeccompData} (harch : d.arch = auditArchAarch64)
    (hnone : ∀ e ∈ entries cfg lists, e.number ≠ d.nr) : specified cfg lists d = seccompRetAllow := by
  rw [specified, if_neg (not_not_intro harch)]
  cases hlisted : listed cfg.table lists d.nr with
  | none => rfl
  | some s =>
    dsimp only
    rw [specifiedFor_eq]
    obtain ⟨s', hs', rfl⟩ := Option.map_eq_some_iff.1 hlisted
    have hsc : detranslateSysnum cfg.table s'.value = some d.nr.toNat := by
      simpa using List.find?_some hs'
    have hmem := mem_filteredSysnums (List.mem_map_of_mem (f := (·.value))
      (List.mem_of_find?_eq_some hs'))
    cases hanswer : answerOf cfg ⟨s'.value, listedFlags lists s'.value⟩ with
    | none => rfl
    | some answer =>
      have hentry : entryOf cfg ⟨s'.value, listedFlags lists s'.value⟩ =
          some ⟨UInt32.ofNat d.nr.toNat, answer⟩ :=
        entryOf_eq_some_iff.2 ⟨_, hsc, hanswer, rfl⟩
      have hnot := hnone _ (List.mem_filterMap.2 ⟨_, hmem, hentry⟩)
      exact absurd (UInt32.ofNat_toNat (x := d.nr)) hnot

/-- The program compares the command of the call with a number. -/
def Misread (es : List Entry) (d : SeccompData) : Prop :=
  d.arch = auditArchAarch64 ∧ ∃ f post, PassedOver es d.word (f :: post) ∧ f.isFlag = false

/-- The program answers the call for a number that is its command. -/
def Misanswered (es : List Entry) (d : SeccompData) : Prop :=
  d.arch = auditArchAarch64 ∧ ∃ mid f post verdict, PassedOver es d.word (mid ++ f :: post) ∧
    (∀ e ∈ mid, e.isFlag = false) ∧ f.number = lowWord (d.args 1) ∧
    f.answerTo (lowWord (d.args 1)) = some verdict ∧ verdict ≠ seccompRetAllow

/-- **The verdicts of the filter.**  The program is built unless a number does not fit
a word, and it returns for every call.  The verdict is the specified one exactly
unless the call's command is answered for a number, and besides no comparison of a
number looks at another word exactly unless the command is compared with one. -/
theorem setSeccompFilters_verdict (cfg : FilterConfig) (lists : List (List FilteredSysnum)) :
    match setSeccompFilters cfg (filteredSysnums lists) with
    | .error e => e = .erange ∧ 2 ^ 32 < cfg.table.length
    | .ok prog => ∀ d : SeccompData, ∃ verdict,
        (filter prog d.word).exit = .returned verdict ∧
        (verdict = specified cfg lists d ↔ ¬ Misanswered (entries cfg lists) d) ∧
        (verdict = specified cfg lists d ∧
            (∀ look ∈ (filter prog d.word).looks, look.2 = some look.1) ↔
          ¬ Misread (entries cfg lists) d) := by
  obtain ⟨hfits, hbuilt⟩ | ⟨hfits, hbuilt⟩ := setSeccompFilters_eq cfg lists
  · rw [hbuilt]
    intro d
    obtain ⟨hexit, hproper⟩ := filter_program d.word
      (fun e he verdict cmds => length_cmds_le he) (length_entries_code cfg lists)
    refine ⟨_, hexit, ?_⟩
    change _ ∧ (_ ∧ Proper _ ↔ _)
    rw [hproper]
    have hword : d.word archOff = d.arch := rfl
    rw [hword, Misanswered, Misread]
    by_cases harch : d.arch = auditArchAarch64
    · rw [if_pos harch, and_iff_right harch, and_iff_right harch, imp_iff_right harch]
      exact entries_verdict d.word (nodup_entries hfits)
        (fun e he hnumber => specified_of_entry hfits harch he hnumber)
        (fun hnone => specified_of_no_entry harch hnone)
    · simp [harch, specified]
  · rw [hbuilt]
    refine ⟨rfl, ?_⟩
    by_contra hlarge
    refine hfits fun s hs sc hsc _ => ?_
    obtain ⟨hlt, -⟩ := List.getElem?_eq_some_iff.1 (detranslateSysnum_eq_some hsc)
    omega

end

/-- `lsetxattr` has the number 6 and `ioctl` the number 29. -/
def ioctlConfig : FilterConfig where
  table := ((List.replicate 30 none).set 6 (some (.other 168))).set 29 (some .ioctl)
  userNotif := false
  statShim := false
  link2symlink := false

/-- `ioctl(fd, 6)`. -/
def ioctlCall : SeccompData := ⟨29, auditArchAarch64, 0, fun i => if i = 1 then 6 else 0⟩

/-- An `ioctl` with the command 6 is traced as `lsetxattr`. -/
theorem exists_command_traced :
    ¬ ∀ (cfg : FilterConfig) (lists : List (List FilteredSysnum)) (prog : List Insn)
      (d : SeccompData), setSeccompFilters cfg (filteredSysnums lists) = .ok prog →
      (filter prog d.word).exit = .returned (specified cfg lists d) := by
  intro hall
  have hbuilt : setSeccompFilters ioctlConfig (filteredSysnums [[⟨.ioctl, 1⟩, ⟨.other 168, 0⟩]]) =
      .ok (program [⟨29, .args1 (seccompRetTrace + 1) ioctlCmds⟩, ⟨6, .ret seccompRetTrace⟩]) := by
    rfl
  exact absurd (hall _ _ _ ioctlCall hbuilt) (by decide)

end NeoProot.Seccomp
