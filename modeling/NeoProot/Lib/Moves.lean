import Mathlib.Logic.Function.Basic

/-!
# Moves between registers

Moves are made one after the other, and each may read what an earlier one has overwritten.
What a register holds at the end is traced back to the registers before the first move.

## Main definitions

* `Source`, `Move` — a register or a constant goes to a register.
* `run` — the moves one after the other.
* `trace` — where the contents of each register come from.
* `run_eq_trace` — the moves give each register what `trace` says.
-/

namespace NeoProot.Moves

variable {ρ α : Type*}

/-- What is moved: the contents of a register, or a constant. -/
inductive Source (ρ α : Type*)
  | reg (r : ρ)
  | const (a : α)
  deriving DecidableEq, Repr

/-- The value of a source. -/
def Source.eval (env : ρ → α) : Source ρ α → α
  | .reg r => env r
  | .const a => a

@[simp] theorem Source.eval_reg (env : ρ → α) (r : ρ) : (Source.reg r).eval env = env r := rfl

@[simp] theorem Source.eval_const (env : ρ → α) (a : α) : (Source.const a).eval env = a := rfl

/-- A source that reads registers which come from elsewhere themselves. -/
def Source.back (origin : ρ → Source ρ α) : Source ρ α → Source ρ α
  | .reg r => origin r
  | .const a => .const a

theorem eval_back (env : ρ → α) (origin : ρ → Source ρ α) (source : Source ρ α) :
    (source.back origin).eval env = source.eval fun r => (origin r).eval env := by
  cases source with
  | reg r => rfl
  | const a => rfl

/-- A register, and what goes to it. -/
abbrev Move (ρ α : Type*) := ρ × Source ρ α

variable [DecidableEq ρ]

/-- The registers after a move. -/
def step (env : ρ → α) (move : Move ρ α) : ρ → α :=
  Function.update env move.1 (move.2.eval env)

/-- The registers after the moves. -/
def run (moves : List (Move ρ α)) (env : ρ → α) : ρ → α := moves.foldl step env

/-- Where the contents of a register come from after a move. -/
def traceStep (origin : ρ → Source ρ α) (move : Move ρ α) : ρ → Source ρ α :=
  Function.update origin move.1 (move.2.back origin)

/-- Where the contents of a register come from after the moves. -/
def trace (moves : List (Move ρ α)) : ρ → Source ρ α := moves.foldl traceStep .reg

theorem eval_traceStep (env : ρ → α) (origin : ρ → Source ρ α) (move : Move ρ α) :
    (fun r => (traceStep origin move r).eval env) =
      step (fun r => (origin r).eval env) move := by
  funext r
  rw [traceStep, step]
  by_cases hr : r = move.1
  · subst hr
    rw [Function.update_self, Function.update_self, eval_back]
  · rw [Function.update_of_ne hr, Function.update_of_ne hr]

theorem eval_foldl_traceStep (env : ρ → α) (moves : List (Move ρ α)) (origin : ρ → Source ρ α) :
    (fun r => (moves.foldl traceStep origin r).eval env) =
      run moves fun r => (origin r).eval env := by
  induction moves generalizing origin with
  | nil => rfl
  | cons move moves ih => rw [List.foldl_cons, ih, eval_traceStep, run, run, List.foldl_cons]

/-- **Each register ends with what the trace says.** -/
theorem run_eq_trace (moves : List (Move ρ α)) (env : ρ → α) (r : ρ) :
    run moves env r = (trace moves r).eval env :=
  (congrFun (eval_foldl_traceStep env moves .reg) r).symm

/-- A register to which nothing goes keeps its contents. -/
theorem run_of_notMem {moves : List (Move ρ α)} {r : ρ} (hr : r ∉ moves.map Prod.fst)
    (env : ρ → α) : run moves env r = env r := by
  induction moves generalizing env with
  | nil => rfl
  | cons move moves ih =>
    rw [List.map_cons, List.mem_cons, not_or] at hr
    rw [run, List.foldl_cons]
    exact (ih hr.2 _).trans (Function.update_of_ne hr.1 _ _)

end NeoProot.Moves
