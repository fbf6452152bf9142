import NeoProot.Lib.Run
import Mathlib.Data.Int.Notation
import Mathlib.Data.Nat.Notation
import Mathlib.Logic.Function.Basic
import Mathlib.Algebra.Ring.Int.Defs
import Mathlib.Algebra.Ring.Nat

/-!
# The heap of `brk`

`brk` is emulated with a mapping of its own: the first call is replaced with an `mmap` of one
page, which is never handed out, and each later one with an `mremap` of that page and the heap
behind it.  The entry stop of a call reads the heap, and its exit stop writes it; all threads of
a process share one heap, and their stops come in any order.

What the kernel does between the two stops is an input: its answer.  What an answer means for
the mapping is in `afterKernel`.

## Main definitions

* `translateBrkEnter`, `translateBrkExit` — the two stops.
* `State.step` — a stop, or the kernel's answer to a call.
-/

namespace NeoProot.Brk

/-- `Heap`. -/
structure Heap where
  base : UInt64
  size : UInt64
  disabled : Bool
  deriving DecidableEq, Repr

/-- The number a system call has when it is made. -/
inductive Sysnum
  | brk
  | void
  | mmap
  | mmap2
  | mremap
  | other (number : ℕ)
  deriving DecidableEq, Repr

/-- A call between its stops: its argument, and the number and the arguments it is made with. -/
structure Call where
  original : UInt64
  sysnum : Sysnum
  sysarg1 : UInt64
  sysarg2 : UInt64
  sysarg3 : UInt64
  deriving DecidableEq, Repr

/-- What does not change during a run: the answer of `sysconf`, the end of the last mapping of
the program, and whether the ABI has `mmap2`. -/
structure Machine where
  scPageSize : ℤ
  isLong : scPageSize < 2 ^ 63
  bssEnd : UInt64
  hasMmap2 : Bool
  deriving DecidableEq, Repr

/-- `heap_page_size`, once it is set. -/
def Machine.pageSize (m : Machine) : UInt64 :=
  if 0 < m.scPageSize then UInt64.ofInt m.scPageSize else 0x1000

/-- The result of a system call is an error: `err < 0 && err > -4096`. -/
def IsError (result : UInt64) : Prop := 2 ^ 64 - 4096 < result.toNat

instance (result : UInt64) : Decidable (IsError result) := inferInstanceAs (Decidable (_ < _))

/-- `translate_brk_enter`: `heap_page_size`, and the call that is made. -/
def translateBrkEnter (m : Machine) (heap : Heap) (heapPageSize newBrk : UInt64) :
    UInt64 × Call :=
  let asIs : Call := ⟨newBrk, .brk, newBrk, 0, 0⟩
  if heap.disabled then (heapPageSize, asIs)
  else
    let pgSz := if heapPageSize = 0 then m.pageSize else heapPageSize
    if heap.base = 0 then
      if newBrk ≠ 0 then (pgSz, asIs)
      else (pgSz, ⟨newBrk, if m.hasMmap2 then .mmap2 else .mmap, m.bssEnd, pgSz, 3⟩)
    else if newBrk < heap.base then (pgSz, ⟨newBrk, .void, newBrk, 0, 0⟩)
    else
      let newSize := newBrk - heap.base
      (pgSz, ⟨newBrk, .mremap, heap.base - pgSz, heap.size + pgSz, newSize + pgSz⟩)

/-- `translate_brk_exit`: the heap and the result, or a failed assertion. -/
def translateBrkExit (heap : Heap) (pgSz : UInt64) (c : Call) (result : UInt64) :
    Option (Heap × UInt64) :=
  if heap.disabled then some (heap, result)
  else if pgSz = 0 then none
  else
    match c.sysnum with
    | .void => some (heap, heap.base + heap.size)
    | .mmap | .mmap2 =>
      if IsError result then some (heap, 0)
      else some ({ heap with base := result + pgSz, size := 0 }, result + pgSz)
    | .mremap =>
      if IsError result ∨ heap.base ≠ result + pgSz then some (heap, heap.base + heap.size)
      else
        let size := c.sysarg3 - pgSz
        some ({ heap with size := size }, heap.base + size)
    | .brk => some ({ heap with disabled := heap.disabled || decide (result = c.original) }, result)
    | .other _ => none

/-! ### Runs -/

/-- Where a thread is with its call. -/
inductive Stage
  | idle
  | entered (c : Call)
  | returned (c : Call) (result : UInt64)
  deriving DecidableEq, Repr

/-- The threads of a process, the heap they share, and the pages that their calls have mapped. -/
structure State where
  heap : Heap
  heapPageSize : UInt64
  mapped : ℕ → Prop
  stages : ℕ → Stage
  aborted : Bool

/-- What happens: a thread makes a call, the kernel answers it, the call ends. -/
inductive Event
  | enter (thread : ℕ) (newBrk : UInt64)
  | kernel (thread : ℕ) (result : UInt64)
  | leave (thread : ℕ)
  deriving DecidableEq, Repr

/-- The pages that a length takes. -/
def pages (pageSize length : ℕ) : ℕ := (length + pageSize - 1) / pageSize

/-- The mapping behind a call that the kernel has answered: `mmap` adds its pages, `mremap` adds
or takes away at the end of the old length. -/
def afterKernel (pageSize : ℕ) (c : Call) (result : UInt64) (mapped : ℕ → Prop) : ℕ → Prop :=
  if IsError result then mapped
  else
    let first := result.toNat / pageSize
    match c.sysnum with
    | .mmap | .mmap2 => fun p =>
      mapped p ∨ (first ≤ p ∧ p < first + pages pageSize c.sysarg2.toNat)
    | .mremap => fun p =>
      (mapped p ∨ (first + pages pageSize c.sysarg2.toNat ≤ p ∧
        p < first + pages pageSize c.sysarg3.toNat)) ∧
      ¬ (first + pages pageSize c.sysarg3.toNat ≤ p ∧
        p < first + pages pageSize c.sysarg2.toNat)
    | _ => mapped

namespace State

/-- A thread gets to another stage. -/
def setStage (s : State) (thread : ℕ) (stage : Stage) : State :=
  { s with stages := Function.update s.stages thread stage }

/-- What the guest gets at the exit stop of a thread. -/
def answer (s : State) (thread : ℕ) : Option UInt64 :=
  match s.stages thread with
  | .returned c result => (translateBrkExit s.heap s.heapPageSize c result).map (·.2)
  | _ => none

/-- One event; nothing happens after a failed assertion. -/
def step (m : Machine) (s : State) (e : Event) : State :=
  if s.aborted then s
  else
    match e with
    | .enter thread newBrk =>
      match s.stages thread with
      | .idle =>
        let entered := translateBrkEnter m s.heap s.heapPageSize newBrk
        { s with heapPageSize := entered.1 }.setStage thread (.entered entered.2)
      | _ => s
    | .kernel thread result =>
      match s.stages thread with
      | .entered c =>
        { s with mapped := afterKernel m.pageSize.toNat c result s.mapped }.setStage thread
          (.returned c result)
      | _ => s
    | .leave thread =>
      match s.stages thread with
      | .returned c result =>
        match translateBrkExit s.heap s.heapPageSize c result with
        | some (heap, _) => { s with heap := heap }.setStage thread .idle
        | none => { s with aborted := true }
      | _ => s

/-- A process at its start: no heap, and no thread in a call. -/
def initial : State := ⟨⟨0, 0, false⟩, 0, fun _ => False, fun _ => .idle, false⟩

end State

end NeoProot.Brk
