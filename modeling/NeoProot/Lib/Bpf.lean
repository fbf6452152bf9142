import Mathlib.Data.List.Basic

/-!
# Classic BPF filters

A filter reads 32-bit words of its data into one accumulator, compares them with
constants and returns a verdict.  Jumps go forward only, so a filter never runs
longer than it is.

A comparison records which word it is meant for.  The machine does not look at
this; `looks` lists it for each comparison made, beside the word that the
accumulator really came from.

## Main definitions

* `Insn`, `run` — the instructions and the machine, with a program counter.
* `exec` — the same along the list of instructions, which composes: `exec_append`.
* `run_eq_exec` — the two agree, whatever the fuel as long as it covers the program.
-/

namespace NeoProot.Bpf

/-- The instructions that filters are made of: `BPF_LD | BPF_W | BPF_ABS`,
`BPF_JMP | BPF_JEQ | BPF_K`, `BPF_JMP | BPF_JA` and `BPF_RET | BPF_K`. -/
inductive Insn
  | ld (k : UInt32)
  | jeq (meant : UInt32) (k : UInt32) (jt jf : UInt8)
  | ja (k : UInt32)
  | ret (k : UInt32)
  deriving DecidableEq, Repr

/-- The accumulator, and the word it was loaded from. -/
structure Acc where
  value : UInt32
  source : Option UInt32
  deriving DecidableEq, Repr

/-- The accumulator at the start. -/
def Acc.zero : Acc := ⟨0, none⟩

/-- How a run leaves a list of instructions: with a verdict, or behind its end with
`skip` more instructions to jump over. -/
inductive Exit
  | returned (verdict : UInt32)
  | passed (skip : ℕ) (acc : Acc)
  deriving DecidableEq, Repr

/-- A run: what its comparisons were meant for and looked at, and its end. -/
@[ext]
structure Trace where
  looks : List (UInt32 × Option UInt32)
  exit : Exit
  deriving DecidableEq, Repr

/-- The comparisons made before a run. -/
def Trace.after (looks : List (UInt32 × Option UInt32)) (t : Trace) : Trace :=
  ⟨looks ++ t.looks, t.exit⟩

/-- The machine at work on the word-addressed `data`. -/
def run (prog : List Insn) (data : UInt32 → UInt32) : ℕ → ℕ → Acc → Trace
  | 0, pc, acc => ⟨[], .passed (pc - prog.length) acc⟩
  | fuel + 1, pc, acc =>
    match prog[pc]? with
    | none => ⟨[], .passed (pc - prog.length) acc⟩
    | some (.ld k) => run prog data fuel (pc + 1) ⟨data k, some k⟩
    | some (.jeq meant k jt jf) =>
      (run prog data fuel (pc + 1 + (if acc.value = k then jt else jf).toNat) acc).after
        [(meant, acc.source)]
    | some (.ja k) => run prog data fuel (pc + 1 + k.toNat) acc
    | some (.ret v) => ⟨[], .returned v⟩

/-- The run of a filter on its data. -/
def filter (prog : List Insn) (data : UInt32 → UInt32) : Trace :=
  run prog data prog.length 0 .zero

/-- The machine along the instructions that are left, the first `skip` of which are
jumped over. -/
def exec (data : UInt32 → UInt32) : List Insn → ℕ → Acc → Trace
  | [], skip, acc => ⟨[], .passed skip acc⟩
  | _ :: prog, skip + 1, acc => exec data prog skip acc
  | .ld k :: prog, 0, _ => exec data prog 0 ⟨data k, some k⟩
  | .jeq meant k jt jf :: prog, 0, acc =>
    (exec data prog (if acc.value = k then jt else jf).toNat acc).after [(meant, acc.source)]
  | .ja k :: prog, 0, acc => exec data prog k.toNat acc
  | .ret v :: _, 0, _ => ⟨[], .returned v⟩

section

variable (data : UInt32 → UInt32)

@[simp] theorem after_nil (t : Trace) : t.after [] = t := rfl

@[simp] theorem after_after (l l' : List (UInt32 × Option UInt32)) (t : Trace) :
    (t.after l').after l = t.after (l ++ l') := by
  simp [Trace.after]

@[simp] theorem exit_after (l : List (UInt32 × Option UInt32)) (t : Trace) :
    (t.after l).exit = t.exit := rfl

@[simp] theorem looks_after (l : List (UInt32 × Option UInt32)) (t : Trace) :
    (t.after l).looks = l ++ t.looks := rfl

@[simp] theorem exec_nil (skip : ℕ) (acc : Acc) : exec data [] skip acc = ⟨[], .passed skip acc⟩ := by
  rw [exec]

@[simp] theorem exec_skip (insn : Insn) (prog : List Insn) (skip : ℕ) (acc : Acc) :
    exec data (insn :: prog) (skip + 1) acc = exec data prog skip acc := by
  rw [exec]

@[simp] theorem exec_ld (k : UInt32) (prog : List Insn) (acc : Acc) :
    exec data (.ld k :: prog) 0 acc = exec data prog 0 ⟨data k, some k⟩ := by
  rw [exec]

@[simp] theorem exec_jeq (meant k : UInt32) (jt jf : UInt8) (prog : List Insn) (acc : Acc) :
    exec data (.jeq meant k jt jf :: prog) 0 acc =
      (exec data prog (if acc.value = k then jt else jf).toNat acc).after [(meant, acc.source)] := by
  rw [exec]

@[simp] theorem exec_ja (k : UInt32) (prog : List Insn) (acc : Acc) :
    exec data (.ja k :: prog) 0 acc = exec data prog k.toNat acc := by
  rw [exec]

@[simp] theorem exec_ret (v : UInt32) (prog : List Insn) (acc : Acc) :
    exec data (.ret v :: prog) 0 acc = ⟨[], .returned v⟩ := by
  rw [exec]

/-- **A run goes through one part of a filter after the other.** -/
theorem exec_append (xs ys : List Insn) (skip : ℕ) (acc : Acc) :
    exec data (xs ++ ys) skip acc =
      match (exec data xs skip acc).exit with
      | .returned _ => exec data xs skip acc
      | .passed skip' acc' => (exec data ys skip' acc').after (exec data xs skip acc).looks := by
  induction xs generalizing skip acc with
  | nil => simp
  | cons insn xs ih =>
    rw [List.cons_append]
    cases skip with
    | succ skip => simpa only [exec_skip] using ih skip acc
    | zero =>
      cases insn with
      | ld k => simpa only [exec_ld] using ih 0 _
      | ja k => simpa only [exec_ja] using ih k.toNat acc
      | ret v => simp
      | jeq meant k jt jf =>
        simp only [exec_jeq, exit_after, ih]
        split <;> simp [*]

/-- Instructions that are all jumped over. -/
theorem exec_of_length_le {prog : List Insn} {skip : ℕ} (h : prog.length ≤ skip) (acc : Acc) :
    exec data prog skip acc = ⟨[], .passed (skip - prog.length) acc⟩ := by
  induction prog generalizing skip with
  | nil => simp
  | cons insn prog ih =>
    cases skip with
    | zero => simp at h
    | succ skip =>
      rw [List.length_cons] at h
      rw [exec_skip, ih (by omega), List.length_cons]
      congr 2
      omega

theorem exec_drop (prog : List Insn) (skip : ℕ) (acc : Acc) :
    exec data prog skip acc =
      if prog.length < skip then ⟨[], .passed (skip - prog.length) acc⟩
      else exec data (prog.drop skip) 0 acc := by
  induction prog generalizing skip with
  | nil =>
    cases skip with
    | zero => simp
    | succ skip => simp
  | cons insn prog ih =>
    cases skip with
    | zero => simp
    | succ skip =>
      rw [exec_skip, ih, List.length_cons, List.drop_succ_cons]
      simp [Nat.add_sub_add_right]

/-- **The machine runs along the list.**  Fuel for the instructions that are left is
enough. -/
theorem run_eq_exec (prog : List Insn) {fuel pc : ℕ} (h : prog.length ≤ pc + fuel) (acc : Acc) :
    run prog data fuel pc acc = exec data prog pc acc := by
  induction fuel generalizing pc acc with
  | zero =>
    rw [run, exec_of_length_le data (by omega)]
  | succ fuel ih =>
    rw [run, exec_drop]
    cases hpc : prog[pc]? with
    | none =>
      have hlen := List.getElem?_eq_none_iff.1 hpc
      obtain hlt | heq := Nat.lt_or_eq_of_le hlen
      · rw [if_pos hlt]
      · rw [if_neg (by omega), List.drop_eq_nil_of_le hlen, exec_nil, heq, Nat.sub_self]
    | some insn =>
      obtain ⟨hlt, hget⟩ := List.getElem?_eq_some_iff.1 hpc
      have hnext : ∀ n acc, run prog data fuel (pc + 1 + n) acc =
          exec data (prog.drop (pc + 1)) n acc := by
        intro n acc
        rw [ih (by omega), exec_drop, exec_drop data (prog.drop (pc + 1)), List.length_drop,
          List.drop_drop]
        by_cases hout : prog.length < pc + 1 + n
        · rw [if_pos hout, if_pos (by omega)]
          congr 2
          omega
        · rw [if_neg hout, if_neg (by omega)]
      rw [if_neg (by omega), List.drop_eq_getElem_cons hlt, hget]
      cases insn with
      | ld k => simpa using hnext 0 _
      | jeq meant k jt jf => simp [hnext]
      | ja k => simp [hnext]
      | ret v => simp

/-- A filter as a whole. -/
theorem filter_eq_exec (prog : List Insn) : filter prog data = exec data prog 0 .zero :=
  run_eq_exec data prog (by omega) .zero

end

end NeoProot.Bpf
