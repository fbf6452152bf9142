import NeoProot.Syscall.Heap

/-!
# The heap stays consistent

The exit stop of a `brk` writes what follows from the heap that its entry stop has read.  When no
other thread has changed the heap in between, the mapping is the heap with the page in front of
it, and every call answers with the end of the heap.  `heap_of_run` says this of all runs in
which the calls that change the heap do not overlap.

## Main definitions

* `Region` — the pages of a heap.
* `State.Undisturbed` — the condition on the steps of a run.
* `State.Kept` — what a step keeps.
-/

namespace NeoProot.Brk

open Run

variable {heap : Heap} {mapped : ℕ → Prop} {e : Event}

/-- The pages of a heap: those of its bytes, and one in front of them. -/
def Region (pageSize : ℕ) (heap : Heap) (p : ℕ) : Prop :=
  heap.base ≠ 0 ∧ heap.base.toNat - pageSize ≤ p * pageSize ∧
    p * pageSize < heap.base.toNat + heap.size.toNat

/-- A call that makes the heap. -/
def Call.Maps (c : Call) : Prop := c.sysnum = .mmap ∨ c.sysnum = .mmap2

/-- A call that changes the mapping when it succeeds. -/
def Call.Remaps (c : Call) : Prop := c.Maps ∨ c.sysnum = .mremap

instance (c : Call) : Decidable c.Maps := inferInstanceAs (Decidable (_ ∨ _))

instance (c : Call) : Decidable c.Remaps := inferInstanceAs (Decidable (_ ∨ _))

/-- A call that has changed the mapping waits for its exit stop. -/
def Stage.Waits : Stage → Prop
  | .returned c result => ¬ IsError result ∧ c.Remaps
  | _ => False

/-- The call of a stage. -/
def Stage.call : Stage → Option Call
  | .idle => none
  | .entered c | .returned c _ => some c

namespace State

/-- A thread has changed the mapping and not ended its call. -/
def Waiting (s : State) (thread : ℕ) : Prop := (s.stages thread).Waits

/-- How the kernel answers: a new mapping is made of whole pages below the end of the address
space, and a mapping that may not move does not move. -/
def KernelAnswers (m : Machine) (s : State) : Event → Prop
  | .kernel thread result =>
    ∀ c, s.stages thread = .entered c → ¬ IsError result →
      (c.Maps → m.pageSize.toNat ∣ result.toNat ∧ result.toNat + m.pageSize.toNat < 2 ^ 64) ∧
      (c.sysnum = .mremap → result = c.sysarg1)
  | _ => True

/-- The condition on a step.  A call that changes the mapping finds no other such call before its
exit stop, and the heap as it was at its own entry stop: not made yet, or of the same size.  A
call that fails to make the heap, or that was left to the kernel, ends while there still is no
heap, and one that the kernel has granted while none is being made. -/
def Undisturbed (m : Machine) (s : State) : Event → Prop
  | .kernel thread result =>
    ∀ c, s.stages thread = .entered c → ¬ IsError result → c.Remaps →
      (∀ other, ¬ s.Waiting other) ∧
      (c.Maps → s.heap.base = 0 ∧ s.heap.disabled = false) ∧
      (c.sysnum = .mremap → c.sysarg2 = s.heap.size + m.pageSize)
  | .leave thread =>
    ∀ c result, s.stages thread = .returned c result →
      (c.Maps → IsError result → s.heap.base = 0) ∧
      (c.sysnum = .brk → s.heap.base = 0 ∧
        (result = c.original → ∀ other, ¬ s.Waiting other))
  | .enter _ _ => True

/-- What a step keeps: the tracer does not abort, the heap stays where it is, a call answers with
the end of the heap, one that fails or asks for less than the base leaves the size, and the
sizes of an `mremap` are sums that fit a word. -/
structure Kept (m : Machine) (s : State) (e : Event) : Prop where
  running : (s.step m e).aborted = false
  base : s.heap.base ≠ 0 → (s.step m e).heap.base = s.heap.base
  answer : ∀ thread, e = .leave thread → ∀ result ∈ s.answer thread,
    (s.step m e).heap.base ≠ 0 → result = (s.step m e).heap.base + (s.step m e).heap.size
  unchanged : ∀ thread c result, e = .leave thread → s.stages thread = .returned c result →
    IsError result ∨ c.original < s.heap.base → (s.step m e).heap.size = s.heap.size
  sizes : ∀ thread newBrk c, e = .enter thread newBrk → s.stages thread = .idle →
    (s.step m e).stages thread = .entered c → c.sysnum = .mremap →
      c.sysarg2.toNat = s.heap.size.toNat + m.pageSize.toNat ∧
      c.sysarg3.toNat = newBrk.toNat - s.heap.base.toNat + m.pageSize.toNat

/-- The mapping is the region of the heap, unless a call waits for its exit stop. -/
def RegionRight (m : Machine) (s : State) : Prop :=
  (∀ thread, ¬ s.Waiting thread) → ∀ p, s.mapped p ↔ Region m.pageSize.toNat s.heap p

end State

/-! ### Sizes -/

theorem pageSize_pos (m : Machine) : 0 < m.pageSize.toNat := by
  rw [Machine.pageSize]
  split
  · rename_i hpos
    have hlong := m.isLong
    have hvalue : (UInt64.ofInt m.scPageSize).toNat = (m.scPageSize % 2 ^ 64).toNat := by
      simp [UInt64.ofInt]
      omega
    omega
  · decide

/-- A page more in bytes is a page more. -/
theorem pages_add {pageSize : ℕ} (hpos : 0 < pageSize) (length : ℕ) :
    pages pageSize (length + pageSize) = pages pageSize length + 1 := by
  have hsum : length + pageSize + pageSize - 1 = length + pageSize - 1 + pageSize := by omega
  rw [pages, pages, hsum, Nat.add_div_right _ hpos]

/-- What a heap that is made looks like. -/
structure Heap.Made (pageSize : ℕ) (heap : Heap) : Prop where
  aligned : pageSize ∣ heap.base.toNat
  room : pageSize ≤ heap.base.toNat
  fits : heap.base.toNat + heap.size.toNat < 2 ^ 64

/-- The region of a heap, counted in pages. -/
theorem region_iff {pageSize : ℕ} (hmade : heap.Made pageSize) (hpos : 0 < pageSize) (p : ℕ) :
    Region pageSize heap p ↔ heap.base ≠ 0 ∧ heap.base.toNat / pageSize ≤ p + 1 ∧
      p < heap.base.toNat / pageSize + pages pageSize heap.size.toNat := by
  obtain ⟨k, hk⟩ := hmade.aligned
  have hquot : heap.base.toNat / pageSize = k := by
    rw [hk, Nat.mul_div_cancel_left _ hpos]
  have hlow : heap.base.toNat - pageSize ≤ p * pageSize ↔ k ≤ p + 1 := by
    rw [Nat.sub_le_iff_le_add, hk, ← Nat.succ_mul, Nat.mul_comm, Nat.mul_le_mul_right_iff hpos]
  have hhigh : p * pageSize < heap.base.toNat + heap.size.toNat ↔
      p < k + pages pageSize heap.size.toNat := by
    by_cases hlt : p < k
    · have hmul := Nat.mul_lt_mul_of_pos_right hlt hpos
      rw [hk, Nat.mul_comm pageSize k]
      omega
    · obtain ⟨j, rfl⟩ := Nat.exists_eq_add_of_le (Nat.not_lt.1 hlt)
      have hceil : j < pages pageSize heap.size.toNat ↔ j * pageSize < heap.size.toNat := by
        rw [pages, ← Nat.succ_le_iff, Nat.le_div_iff_mul_le hpos, Nat.succ_mul]
        omega
      rw [hk, Nat.add_lt_add_iff_left, hceil, Nat.mul_comm pageSize k, Nat.add_mul]
      omega
  rw [Region, hlow, hhigh, hquot]

/-- What a call looks like between its stops. -/
def Call.Right (m : Machine) (heap : Heap) (c : Call) : Prop :=
  match c.sysnum with
  | .brk => True
  | .void => heap.base ≠ 0
  | .mmap | .mmap2 => c.original = 0 ∧ c.sysarg2 = m.pageSize
  | .mremap => heap.base ≠ 0 ∧ heap.base ≤ c.original ∧ c.sysarg1 = heap.base - m.pageSize ∧
      c.sysarg3 = c.original - heap.base + m.pageSize
  | .other _ => False

/-- The heap that a call leaves when it has succeeded. -/
def Call.commit (m : Machine) (c : Call) (result : UInt64) (heap : Heap) : Heap :=
  if c.sysnum = .mremap then { heap with size := c.sysarg3 - m.pageSize }
  else { heap with base := result + m.pageSize, size := 0 }

/-- The heap is as the call found it, and the result is one the kernel gives. -/
def Call.Fresh (m : Machine) (c : Call) (result : UInt64) (heap : Heap) : Prop :=
  (c.Maps → heap.base = 0 ∧ heap.disabled = false ∧ m.pageSize.toNat ∣ result.toNat ∧
    result.toNat + m.pageSize.toNat < 2 ^ 64) ∧
  (c.sysnum = .mremap → result = heap.base - m.pageSize)

/-- What holds between two events. -/
structure State.Inv (m : Machine) (s : State) : Prop where
  running : s.aborted = false
  pageSize : s.heapPageSize = 0 ∨ s.heapPageSize = m.pageSize
  disabled : s.heap.disabled = true → s.heap.base = 0
  made : s.heap.base ≠ 0 → s.heap.Made m.pageSize.toNat
  known : ∀ thread, ∀ c ∈ (s.stages thread).call,
    (s.heap.disabled = true ∨ s.heapPageSize = m.pageSize) ∧ c.Right m s.heap
  region : s.RegionRight m
  waiting : ∀ thread c result, s.stages thread = .returned c result → ¬ IsError result →
    c.Remaps → (∀ other, s.Waiting other → other = thread) ∧ c.Fresh m result s.heap ∧
      ∀ p, s.mapped p ↔ Region m.pageSize.toNat (c.commit m result s.heap) p

variable {m : Machine} {s : State} {thread : ℕ} {c : Call} {result : UInt64}

theorem toNat_add_of_lt {a b : UInt64} (h : a.toNat + b.toNat < 2 ^ 64) :
    (a + b).toNat = a.toNat + b.toNat := by
  rw [UInt64.toNat_add, Nat.mod_eq_of_lt h]

theorem ne_zero_of_toNat {a : UInt64} (h : 0 < a.toNat) : a ≠ 0 := by
  intro hzero
  rw [hzero] at h
  exact absurd h (Nat.lt_irrefl 0)

/-! ### What the kernel does to the region -/

/-- The heap of a call that has succeeded. -/
theorem Call.Fresh.made (hmade : heap.base ≠ 0 → heap.Made m.pageSize.toNat)
    (hright : c.Right m heap) (hremaps : c.Remaps) (hfresh : c.Fresh m result heap) :
    (c.commit m result heap).Made m.pageSize.toNat ∧
      (c.commit m result heap).base ≠ 0 ∧
      (heap.base ≠ 0 → (c.commit m result heap).base = heap.base) := by
  have hpos := pageSize_pos m
  by_cases hmremap : c.sysnum = .mremap
  · rw [Call.Right, hmremap] at hright
    obtain ⟨hne, hle, -, hnew⟩ := hright
    specialize hmade hne
    rw [Call.commit, if_pos hmremap, hnew, UInt64.add_sub_cancel]
    refine ⟨⟨hmade.aligned, hmade.room, ?_⟩, hne, fun _ => rfl⟩
    have horiginal := c.original.toNat_lt
    have hle' := UInt64.le_iff_toNat_le.1 hle
    dsimp only
    rw [UInt64.toNat_sub_of_le _ _ hle]
    omega
  · obtain ⟨hbase, -, haligned, hfits⟩ := hfresh.1 (hremaps.resolve_right hmremap)
    have hsum := toNat_add_of_lt hfits
    have hne : result + m.pageSize ≠ 0 := ne_zero_of_toNat (by omega)
    rw [Call.commit, if_neg hmremap]
    refine ⟨⟨?_, ?_, ?_⟩, hne, fun hne' => absurd hbase hne'⟩
    · dsimp only
      rw [hsum]
      exact Nat.dvd_add haligned (Nat.dvd_refl _)
    · dsimp only
      omega
    · dsimp only
      rw [hsum, UInt64.toNat_zero]
      omega

/-- The first page is mapped where nothing was. -/
theorem region_mmap (hmaps : c.Maps) (hc : c.Right m heap) (hok : ¬ IsError result)
    (hfresh : c.Fresh m result heap) (hmapped : ∀ p, ¬ mapped p) (p : ℕ) :
    afterKernel m.pageSize.toNat c result mapped p ↔
      Region m.pageSize.toNat (c.commit m result heap) p := by
  have hpos := pageSize_pos m
  obtain ⟨hnone, -, -, hfits⟩ := hfresh.1 hmaps
  have hbase := toNat_add_of_lt hfits
  obtain ⟨hmade, hne, -⟩ := hfresh.made (fun h => absurd hnone h) hc (.inl hmaps)
  have hsysarg : c.sysarg2 = m.pageSize := by
    obtain h | h := hmaps <;> (rw [Call.Right, h] at hc; exact hc.2)
  have hone : pages m.pageSize.toNat m.pageSize.toNat = 1 := by
    have hpage := pages_add hpos 0
    rw [Nat.zero_add] at hpage
    rw [hpage, pages, Nat.zero_add, Nat.div_eq_of_lt (by omega)]
  have hzero : pages m.pageSize.toNat (0 : UInt64).toNat = 0 :=
    Nat.div_eq_of_lt (by rw [UInt64.toNat_zero]; omega)
  have hcommit : c.commit m result heap = { heap with base := result + m.pageSize, size := 0 } := by
    rw [Call.commit, if_neg]
    intro h
    obtain h' | h' := hmaps <;> rw [h] at h' <;> cases h'
  have hafter : afterKernel m.pageSize.toNat c result mapped p ↔
      mapped p ∨ (result.toNat / m.pageSize.toNat ≤ p ∧
        p < result.toNat / m.pageSize.toNat + 1) := by
    rw [afterKernel, if_neg hok, ← hone, ← hsysarg]
    obtain h | h := hmaps <;> simp only [h, hsysarg]
  rw [hafter, region_iff hmade hpos]
  rw [hcommit] at hne ⊢
  dsimp only at hne ⊢
  rw [hbase, hzero, Nat.add_div_right _ hpos]
  simp only [hmapped p, hne, false_or, ne_eq, not_false_eq_true, true_and]
  omega

/-- The end of the region is moved. -/
theorem region_mremap (hmade : heap.Made m.pageSize.toNat) (hsysnum : c.sysnum = .mremap)
    (hc : c.Right m heap) (hok : ¬ IsError result) (hfresh : c.Fresh m result heap)
    (hsize : c.sysarg2 = heap.size + m.pageSize)
    (hmapped : ∀ p, mapped p ↔ Region m.pageSize.toNat heap p) (p : ℕ) :
    afterKernel m.pageSize.toNat c result mapped p ↔
      Region m.pageSize.toNat (c.commit m result heap) p := by
  have hpos := pageSize_pos m
  obtain ⟨hmade', -, -⟩ := hfresh.made (fun _ => hmade) hc (.inr hsysnum)
  have hresult := hfresh.2 hsysnum
  rw [Call.Right, hsysnum] at hc
  obtain ⟨hne, hle, -, hnew⟩ := hc
  have hroom := hmade.room
  have hfits := hmade.fits
  have hfirst : result.toNat = heap.base.toNat - m.pageSize.toNat := by
    rw [hresult, UInt64.toNat_sub_of_le _ _ (UInt64.le_iff_toNat_le.2 hroom)]
  have hfirst' : heap.base.toNat / m.pageSize.toNat =
      (heap.base.toNat - m.pageSize.toNat) / m.pageSize.toNat + 1 := by
    rw [← Nat.add_div_right _ hpos, Nat.sub_add_cancel hroom]
  have hgrown : (c.original - heap.base).toNat = c.original.toNat - heap.base.toNat :=
    UInt64.toNat_sub_of_le _ _ hle
  have horiginal := c.original.toNat_lt
  have hlebase := UInt64.le_iff_toNat_le.1 hle
  have hold : pages m.pageSize.toNat c.sysarg2.toNat =
      pages m.pageSize.toNat heap.size.toNat + 1 := by
    rw [hsize, toNat_add_of_lt (by omega), pages_add hpos]
  have hnext : pages m.pageSize.toNat c.sysarg3.toNat =
      pages m.pageSize.toNat (c.original - heap.base).toNat + 1 := by
    rw [hnew, toNat_add_of_lt (by omega), pages_add hpos]
  have hcommit : c.commit m result heap = { heap with size := c.original - heap.base } := by
    rw [Call.commit, if_pos hsysnum, hnew, UInt64.add_sub_cancel]
  rw [region_iff hmade' hpos, afterKernel, if_neg hok, hsysnum, hcommit]
  dsimp only
  rw [hold, hnext, hfirst, hmapped p, region_iff hmade hpos, hfirst']
  simp only [hne, ne_eq, not_false_eq_true, true_and]
  omega

/-! ### The stops of one thread -/

@[simp] theorem stages_setStage (s : State) (thread : ℕ) (stage : Stage) (other : ℕ) :
    (s.setStage thread stage).stages other = if other = thread then stage else s.stages other := by
  simp only [State.setStage, Function.update_apply]

theorem waiting_setStage (s : State) (thread : ℕ) (stage : Stage) (other : ℕ) :
    (s.setStage thread stage).Waiting other ↔
      if other = thread then stage.Waits else s.Waiting other := by
  rw [State.Waiting, stages_setStage]
  split <;> rfl

/-- The call that an entry stop makes. -/
theorem translateBrkEnter_right (h : s.Inv m) (newBrk : UInt64) :
    (s.heap.disabled = true ∨
      (translateBrkEnter m s.heap s.heapPageSize newBrk).1 = m.pageSize) ∧
    (translateBrkEnter m s.heap s.heapPageSize newBrk).2.Right m s.heap ∧
    (translateBrkEnter m s.heap s.heapPageSize newBrk).2.original = newBrk ∧
    ((translateBrkEnter m s.heap s.heapPageSize newBrk).2.sysnum = .mremap →
      (translateBrkEnter m s.heap s.heapPageSize newBrk).2.sysarg2 = s.heap.size + m.pageSize) := by
  have hpage : (if s.heapPageSize = 0 then m.pageSize else s.heapPageSize) = m.pageSize := by
    obtain hzero | hsame := h.pageSize
    · rw [if_pos hzero]
    · rw [hsame, ite_self]
  rw [translateBrkEnter, hpage]
  dsimp only
  by_cases hdisabled : s.heap.disabled = true
  · rw [if_pos hdisabled]
    exact ⟨.inl hdisabled, trivial, rfl, nofun⟩
  rw [if_neg hdisabled]
  by_cases hbase : s.heap.base = 0
  · rw [if_pos hbase]
    by_cases hzero : newBrk ≠ 0
    · rw [if_pos hzero]
      exact ⟨.inr rfl, trivial, rfl, nofun⟩
    · rw [if_neg hzero]
      rw [not_not] at hzero
      cases m.hasMmap2
      · exact ⟨.inr rfl, ⟨hzero, rfl⟩, rfl, nofun⟩
      · exact ⟨.inr rfl, ⟨hzero, rfl⟩, rfl, nofun⟩
  rw [if_neg hbase]
  by_cases hbelow : newBrk < s.heap.base
  · rw [if_pos hbelow]
    exact ⟨.inr rfl, hbase, rfl, nofun⟩
  · rw [if_neg hbelow]
    exact ⟨.inr rfl, ⟨hbase, UInt64.not_lt.1 hbelow, rfl, rfl⟩, rfl, fun _ => rfl⟩

/-- `heap_page_size` is set once. -/
theorem translateBrkEnter_pageSize (h : s.Inv m) (newBrk : UInt64) :
    (translateBrkEnter m s.heap s.heapPageSize newBrk).1 = s.heapPageSize ∨
      (translateBrkEnter m s.heap s.heapPageSize newBrk).1 = m.pageSize := by
  obtain hdisabled | hset := (translateBrkEnter_right h newBrk).1
  · left
    rw [translateBrkEnter, if_pos hdisabled]
  · exact .inr hset

/-- A call that has changed the mapping meets a heap that is not disabled. -/
theorem Call.Fresh.enabled (h : s.Inv m) (hright : c.Right m s.heap) (hremaps : c.Remaps)
    (hfresh : c.Fresh m result s.heap) : s.heap.disabled = false := by
  obtain hmaps | hmremap := hremaps
  · exact (hfresh.1 hmaps).2.1
  · rw [Call.Right, hmremap] at hright
    by_contra hdisabled
    rw [Bool.not_eq_false] at hdisabled
    exact hright.1 (h.disabled hdisabled)

/-- The exit stop of a call that has changed the mapping. -/
theorem translateBrkExit_waiting (h : s.Inv m) (hstage : s.stages thread = .returned c result)
    (hok : ¬ IsError result) (hremaps : c.Remaps) :
    translateBrkExit s.heap s.heapPageSize c result =
      some (c.commit m result s.heap,
        (c.commit m result s.heap).base + (c.commit m result s.heap).size) := by
  obtain ⟨hpage, hright⟩ := h.known thread c (by rw [hstage]; rfl)
  obtain ⟨-, hfresh, -⟩ := h.waiting thread c result hstage hok hremaps
  have henabled := Call.Fresh.enabled h hright hremaps hfresh
  have hset : s.heapPageSize = m.pageSize := by
    rw [henabled] at hpage
    simpa using hpage
  have hpos : m.pageSize ≠ 0 := ne_zero_of_toNat (pageSize_pos m)
  rw [translateBrkExit, if_neg (by rw [henabled]; exact Bool.false_ne_true), hset, if_neg hpos]
  obtain (hmmap | hmmap2) | hmremap := hremaps
  · simp [hmmap, hok, Call.commit]
  · simp [hmmap2, hok, Call.commit]
  · have hbase : s.heap.base = result + m.pageSize := by
      rw [hfresh.2 hmremap, UInt64.sub_add_cancel]
    rw [hmremap, Call.commit, if_pos hmremap]
    dsimp only
    rw [if_neg]
    simp [hok, hbase]

/-- The exit stop of any other call. -/
theorem translateBrkExit_other (h : s.Inv m) (hundisturbed : s.Undisturbed m (.leave thread))
    (hstage : s.stages thread = .returned c result) (hother : IsError result ∨ ¬ c.Remaps) :
    ∃ disabled answer, translateBrkExit s.heap s.heapPageSize c result =
        some ({ s.heap with disabled := disabled }, answer) ∧
      (s.heap.disabled = true → disabled = true) ∧
      (disabled = true → s.heap.base = 0 ∧
        (s.heap.disabled = true ∨ ∀ other, ¬ s.Waiting other)) ∧
      (s.heap.base ≠ 0 → answer = s.heap.base + s.heap.size) := by
  obtain ⟨hpage, hright⟩ := h.known thread c (by rw [hstage]; rfl)
  obtain ⟨hmapsFail, hbrk⟩ := hundisturbed c result hstage
  rw [translateBrkExit]
  by_cases hdisabled : s.heap.disabled = true
  · have hbase := h.disabled hdisabled
    rw [if_pos hdisabled]
    exact ⟨s.heap.disabled, result, rfl, id, fun _ => ⟨hbase, .inl hdisabled⟩,
      fun hne => absurd hbase hne⟩
  have hset : s.heapPageSize = m.pageSize := hpage.resolve_left hdisabled
  have hpos : m.pageSize ≠ 0 := ne_zero_of_toNat (pageSize_pos m)
  have hkeep : ∀ answer : UInt64, (s.heap.base ≠ 0 → answer = s.heap.base + s.heap.size) →
      ∃ disabled answer', some (s.heap, answer) =
          some (({ s.heap with disabled := disabled } : Heap), answer') ∧
        (s.heap.disabled = true → disabled = true) ∧
        (disabled = true → s.heap.base = 0 ∧
          (s.heap.disabled = true ∨ ∀ other, ¬ s.Waiting other)) ∧
        (s.heap.base ≠ 0 → answer' = s.heap.base + s.heap.size) := by
    intro answer hanswer
    exact ⟨s.heap.disabled, answer, rfl, id, fun ht => absurd ht hdisabled, hanswer⟩
  rw [if_neg hdisabled, hset, if_neg hpos]
  cases hsysnum : c.sysnum with
  | void => exact hkeep _ fun _ => rfl
  | mmap =>
    have hmaps : c.Maps := .inl hsysnum
    have herror := hother.resolve_right fun hnot => hnot (.inl hmaps)
    dsimp only
    rw [if_pos herror]
    exact hkeep 0 fun hne => absurd (hmapsFail hmaps herror) hne
  | mmap2 =>
    have hmaps : c.Maps := .inr hsysnum
    have herror := hother.resolve_right fun hnot => hnot (.inl hmaps)
    dsimp only
    rw [if_pos herror]
    exact hkeep 0 fun hne => absurd (hmapsFail hmaps herror) hne
  | mremap =>
    have herror := hother.resolve_right fun hnot => hnot (.inr hsysnum)
    dsimp only
    rw [if_pos (.inl herror)]
    exact hkeep _ fun _ => rfl
  | brk =>
    obtain ⟨hbase, hnone⟩ := hbrk hsysnum
    refine ⟨_, result, rfl, fun ht => absurd ht hdisabled, fun hset => ⟨hbase, ?_⟩,
      fun hne => absurd hbase hne⟩
    rw [Bool.or_eq_true, decide_eq_true_eq] at hset
    exact hset.imp_right hnone
  | other number => exact absurd hright (by rw [Call.Right, hsysnum]; exact not_false)

/-! ### Steps -/

/-- What a call needs of the heap is its base, once it is there. -/
theorem Call.Right.later {heap' : Heap} (hright : c.Right m heap)
    (hbase : heap.base ≠ 0 → heap'.base = heap.base) : c.Right m heap' := by
  rw [Call.Right] at hright ⊢
  cases hsysnum : c.sysnum <;> rw [hsysnum] at hright <;> dsimp only at hright ⊢
  case void => rwa [hbase hright]
  case mremap => rwa [hbase hright.1]
  all_goals exact hright

namespace State

theorem Inv.initial (m : Machine) : State.initial.Inv m := by
  refine ⟨rfl, .inl rfl, fun h => absurd h Bool.false_ne_true, fun h => absurd rfl h, ?_, ?_, ?_⟩
  · intro thread c hc
    cases hc
  · intro _ p
    exact ⟨False.elim, fun h => absurd rfl h.1⟩
  · intro thread c result hstage
    cases hstage

/-- The page size is set. -/
theorem Inv.setPageSize (h : s.Inv m) {size : UInt64}
    (hsize : size = s.heapPageSize ∨ size = m.pageSize) :
    ({ s with heapPageSize := size } : State).Inv m := by
  refine ⟨h.running, ?_, h.disabled, h.made, ?_, h.region, h.waiting⟩
  · obtain rfl | hset := hsize
    · exact h.pageSize
    · exact .inr hset
  · intro thread c hc
    obtain ⟨hpage, hright⟩ := h.known thread c hc
    refine ⟨hpage.imp_right fun hpage => ?_, hright⟩
    obtain rfl | hset := hsize
    · exact hpage
    · exact hset

/-- The emulation is given up. -/
theorem Inv.setDisabled (h : s.Inv m) {disabled : Bool}
    (hgive : disabled = true → s.heap.base = 0 ∧
      (s.heap.disabled = true ∨ ∀ other, ¬ s.Waiting other))
    (hkeep : s.heap.disabled = true → disabled = true) :
    ({ s with heap := { s.heap with disabled := disabled } } : State).Inv m := by
  refine ⟨h.running, h.pageSize, fun hset => (hgive hset).1, ?_, ?_, h.region, ?_⟩
  · intro hne
    exact ⟨(h.made hne).aligned, (h.made hne).room, (h.made hne).fits⟩
  · intro thread c hc
    obtain ⟨hpage, hright⟩ := h.known thread c hc
    exact ⟨hpage.imp_left hkeep, hright.later fun _ => rfl⟩
  · intro thread c result hstage hok hremaps
    obtain ⟨hunique, hfresh, hregion⟩ := h.waiting thread c result hstage hok hremaps
    have henabled := hfresh.enabled h (h.known thread c (by rw [hstage]; rfl)).2 hremaps
    have hstill : disabled = false := by
      rw [← Bool.not_eq_true]
      intro hset
      obtain hold | hnone := (hgive hset).2
      · rw [henabled] at hold
        exact absurd hold Bool.false_ne_true
      · refine hnone thread ?_
        rw [Waiting, hstage]
        exact ⟨hok, hremaps⟩
    have hsame : ({ s.heap with disabled := disabled } : Heap) = s.heap := by
      rw [hstill, ← henabled]
    dsimp only
    rw [hsame]
    exact ⟨hunique, hfresh, hregion⟩

/-- A thread gets from a stage without a changed mapping to another such stage. -/
theorem Inv.setStage (h : s.Inv m) {stage : Stage} (hold : ¬ s.Waiting thread)
    (hnew : ¬ stage.Waits) (hknown : ∀ c ∈ stage.call,
      (s.heap.disabled = true ∨ s.heapPageSize = m.pageSize) ∧ c.Right m s.heap) :
    (s.setStage thread stage).Inv m := by
  have hwaiting : ∀ other, (s.setStage thread stage).Waiting other ↔ s.Waiting other := by
    intro other
    rw [waiting_setStage]
    split
    · rename_i hsame
      rw [hsame]
      exact ⟨fun h => absurd h hnew, fun h => absurd h hold⟩
    · exact Iff.rfl
  refine ⟨h.running, h.pageSize, h.disabled, h.made, ?_, ?_, ?_⟩
  · intro other c hc
    rw [stages_setStage] at hc
    split at hc
    · exact hknown c hc
    · exact h.known other c hc
  · intro hnone
    exact h.region fun other hother => hnone other ((hwaiting other).2 hother)
  · intro other c result hstage hok hremaps
    have hne : other ≠ thread := by
      rintro rfl
      rw [stages_setStage, if_pos rfl] at hstage
      rw [hstage] at hnew
      exact hnew ⟨hok, hremaps⟩
    rw [stages_setStage, if_neg hne] at hstage
    obtain ⟨hunique, hrest⟩ := h.waiting other c result hstage hok hremaps
    exact ⟨fun other' hother' => hunique other' ((hwaiting other').1 hother'), hrest⟩

/-- The kernel changes the mapping, and no other call has done so. -/
theorem Inv.kernel (h : s.Inv m) (hstage : s.stages thread = .entered c)
    (hok : ¬ IsError result) (hremaps : c.Remaps)
    (hkernel : s.KernelAnswers m (.kernel thread result))
    (hcalls : s.Undisturbed m (.kernel thread result)) :
    (({ s with mapped := afterKernel m.pageSize.toNat c result s.mapped } : State).setStage thread
      (.returned c result)).Inv m := by
  have hknown := h.known thread c (by rw [hstage]; rfl)
  obtain ⟨hnone, hmaps, hmremap⟩ := hcalls c hstage hok hremaps
  obtain ⟨hmapsAnswer, hmremapAnswer⟩ := hkernel c hstage hok
  have hfresh : c.Fresh m result s.heap := by
    refine ⟨fun hm => ⟨(hmaps hm).1, (hmaps hm).2, hmapsAnswer hm⟩, fun hm => ?_⟩
    have hright := hknown.2
    rw [Call.Right, hm] at hright
    rw [hmremapAnswer hm, hright.2.2.1]
  have hregion : ∀ p, afterKernel m.pageSize.toNat c result s.mapped p ↔
      Region m.pageSize.toNat (c.commit m result s.heap) p := by
    intro p
    obtain hm | hm := hremaps
    · refine region_mmap hm hknown.2 hok hfresh (fun p hp => ?_) p
      exact ((h.region hnone p).1 hp).1 (hmaps hm).1
    · have hright := hknown.2
      rw [Call.Right, hm] at hright
      exact region_mremap (h.made hright.1) hm hknown.2 hok hfresh (hmremap hm) (h.region hnone) p
  have hunique : ∀ other, (s.setStage thread (.returned c result)).Waiting other →
      other = thread := by
    intro other hother
    rw [waiting_setStage] at hother
    by_contra hne
    rw [if_neg hne] at hother
    exact hnone other hother
  refine ⟨h.running, h.pageSize, h.disabled, h.made, ?_, ?_, ?_⟩
  · intro other c' hc'
    rw [stages_setStage] at hc'
    split at hc'
    · cases hc'
      exact hknown
    · exact h.known other c' hc'
  · intro hnobody
    refine absurd ?_ (hnobody thread)
    rw [waiting_setStage, if_pos rfl]
    exact ⟨hok, hremaps⟩
  · intro other c' result' hstage' hok' hremaps'
    obtain rfl : other = thread := by
      apply hunique
      have hother : (({ s with mapped := afterKernel m.pageSize.toNat c result s.mapped } :
          State).setStage thread (.returned c result)).stages other = .returned c' result' :=
        hstage'
      rw [Waiting, show (s.setStage thread (.returned c result)).stages other =
        .returned c' result' from hother]
      exact ⟨hok', hremaps'⟩
    rw [stages_setStage, if_pos rfl] at hstage'
    cases hstage'
    exact ⟨hunique, hfresh, hregion⟩

/-- The exit stop of a call that has changed the mapping writes the heap. -/
theorem Inv.commit (h : s.Inv m) (hstage : s.stages thread = .returned c result)
    (hok : ¬ IsError result) (hremaps : c.Remaps) :
    (({ s with heap := c.commit m result s.heap } : State).setStage thread .idle).Inv m := by
  have hknown := h.known thread c (by rw [hstage]; rfl)
  obtain ⟨hunique, hfresh, hregion⟩ := h.waiting thread c result hstage hok hremaps
  obtain ⟨hmade, hne, hbase⟩ := hfresh.made h.made hknown.2 hremaps
  have hnobody : ∀ other, ¬ (s.setStage thread .idle).Waiting other := by
    intro other hother
    rw [waiting_setStage] at hother
    split at hother
    · exact hother
    · rename_i hdifferent
      exact hdifferent (hunique other hother)
  have hdisabled : (c.commit m result s.heap).disabled = s.heap.disabled := by
    rw [Call.commit]
    split <;> rfl
  refine ⟨h.running, h.pageSize, ?_, fun _ => hmade, ?_, fun _ => hregion, ?_⟩
  · intro hset
    have henabled := hfresh.enabled h hknown.2 hremaps
    rw [← hdisabled] at henabled
    exact absurd (henabled.symm.trans hset) Bool.false_ne_true
  · intro other c' hc'
    rw [stages_setStage] at hc'
    split at hc'
    · cases hc'
    obtain ⟨hpage, hright⟩ := h.known other c' hc'
    exact ⟨hpage.imp_left fun hset => hdisabled.trans hset, hright.later hbase⟩
  · intro other c' result' hstage' hok' hremaps'
    refine absurd ?_ (hnobody other)
    rw [Waiting]
    have hother : (s.setStage thread .idle).stages other = .returned c' result' := hstage'
    rw [hother]
    exact ⟨hok', hremaps'⟩

/-- An entry stop. -/
theorem step_enter (hrunning : s.aborted = false) (hidle : s.stages thread = .idle)
    (newBrk : UInt64) :
    s.step m (.enter thread newBrk) =
      ({ s with heapPageSize := (translateBrkEnter m s.heap s.heapPageSize newBrk).1 } :
        State).setStage thread (.entered (translateBrkEnter m s.heap s.heapPageSize newBrk).2) := by
  simp only [step, hrunning, hidle, Bool.false_eq_true, if_false]

theorem step_kernel (hrunning : s.aborted = false) (hstage : s.stages thread = .entered c)
    (result : UInt64) :
    s.step m (.kernel thread result) =
      ({ s with mapped := afterKernel m.pageSize.toNat c result s.mapped } :
        State).setStage thread (.returned c result) := by
  simp only [step, hrunning, hstage, Bool.false_eq_true, if_false]

theorem step_leave {answer : UInt64} (hrunning : s.aborted = false)
    (hstage : s.stages thread = .returned c result)
    (hexit : translateBrkExit s.heap s.heapPageSize c result = some (heap, answer)) :
    s.step m (.leave thread) = ({ s with heap := heap } : State).setStage thread .idle := by
  simp only [step, hrunning, hstage, hexit, Bool.false_eq_true, if_false]

/-- A call that cannot change the mapping does not. -/
theorem afterKernel_eq (hother : IsError result ∨ ¬ c.Remaps) :
    afterKernel m.pageSize.toNat c result mapped = mapped := by
  rw [afterKernel]
  by_cases herror : IsError result
  · rw [if_pos herror]
  have hnot := hother.resolve_left herror
  rw [if_neg herror]
  cases hsysnum : c.sysnum with
  | mmap => exact absurd (.inl (.inl hsysnum)) hnot
  | mmap2 => exact absurd (.inl (.inr hsysnum)) hnot
  | mremap => exact absurd (.inr hsysnum) hnot
  | brk | void | other => rfl

/-- The sizes of an `mremap` are sums that fit a word. -/
theorem Inv.sizes (h : s.Inv m) (newBrk : UInt64)
    (hsysnum : (translateBrkEnter m s.heap s.heapPageSize newBrk).2.sysnum = .mremap) :
    (translateBrkEnter m s.heap s.heapPageSize newBrk).2.sysarg2.toNat =
        s.heap.size.toNat + m.pageSize.toNat ∧
      (translateBrkEnter m s.heap s.heapPageSize newBrk).2.sysarg3.toNat =
        newBrk.toNat - s.heap.base.toNat + m.pageSize.toNat := by
  obtain ⟨-, hright, horiginal, hsize⟩ := translateBrkEnter_right h newBrk
  rw [Call.Right, hsysnum] at hright
  obtain ⟨hne, hle, -, hnew⟩ := hright
  have hmade := h.made hne
  have hroom := hmade.room
  have hfits := hmade.fits
  have hlt := newBrk.toNat_lt
  rw [horiginal] at hle hnew
  have hgrown := UInt64.toNat_sub_of_le _ _ hle
  have hle' := UInt64.le_iff_toNat_le.1 hle
  constructor
  · rw [hsize hsysnum, toNat_add_of_lt (by omega)]
  · rw [hnew, toNat_add_of_lt (by omega), hgrown]

/-- A step that is not an exit stop leaves the heap. -/
theorem Kept.of_heap (h : (s.step m e).Inv m) (hheap : (s.step m e).heap = s.heap)
    (hleave : ∀ thread, e = .leave thread → ∀ c result, s.stages thread ≠ .returned c result)
    (hsizes : ∀ thread newBrk c, e = .enter thread newBrk → s.stages thread = .idle →
      (s.step m e).stages thread = .entered c → c.sysnum = .mremap →
        c.sysarg2.toNat = s.heap.size.toNat + m.pageSize.toNat ∧
        c.sysarg3.toNat = newBrk.toNat - s.heap.base.toNat + m.pageSize.toNat) : s.Kept m e := by
  refine ⟨h.running, fun _ => by rw [hheap], ?_, ?_, hsizes⟩
  · intro thread he result hresult
    rw [State.answer] at hresult
    split at hresult
    · rename_i c result' hstage
      exact absurd hstage (hleave thread he c result')
    · cases hresult
  · intro thread c result he hstage
    exact absurd hstage (hleave thread he c result)

/-- An event that finds its thread at another stage does nothing. -/
theorem Inv.stepSame (h : s.Inv m) (heq : s.step m e = s)
    (henter : ∀ thread newBrk, e = .enter thread newBrk → s.stages thread ≠ .idle)
    (hleave : ∀ thread, e = .leave thread → ∀ c result, s.stages thread ≠ .returned c result) :
    (s.step m e).Inv m ∧ s.Kept m e := by
  have hinv : (s.step m e).Inv m := by rwa [heq]
  refine ⟨hinv, Kept.of_heap hinv (by rw [heq]) hleave ?_⟩
  intro thread newBrk c he hidle
  exact absurd hidle (henter thread newBrk he)

theorem Inv.stepEnter (h : s.Inv m) (thread : ℕ) (newBrk : UInt64) :
    (s.step m (.enter thread newBrk)).Inv m ∧ s.Kept m (.enter thread newBrk) := by
  by_cases hidle : s.stages thread = .idle
  · have hstep := step_enter (m := m) h.running hidle newBrk
    obtain ⟨hpage, hright, -⟩ := translateBrkEnter_right h newBrk
    have hinv : (s.step m (.enter thread newBrk)).Inv m := by
      rw [hstep]
      apply (h.setPageSize (translateBrkEnter_pageSize h newBrk)).setStage
      · intro hwaiting
        rw [Waiting] at hwaiting
        simp only [hidle] at hwaiting
        exact hwaiting
      · exact not_false
      · intro c hc
        cases hc
        exact ⟨hpage, hright⟩
    refine ⟨hinv, Kept.of_heap hinv (by rw [hstep]; rfl) (fun _ he => nomatch he) ?_⟩
    intro thread' newBrk' c he _ hstage hsysnum
    cases he
    rw [hstep, stages_setStage, if_pos rfl] at hstage
    cases hstage
    exact h.sizes newBrk hsysnum
  · refine h.stepSame ?_ (fun _ _ he => by cases he; exact hidle) fun _ he => nomatch he
    cases hstage : s.stages thread with
    | idle => exact absurd hstage hidle
    | entered | returned => simp only [State.step, hstage, ite_self]

theorem Inv.stepKernel (h : s.Inv m) {thread : ℕ} {result : UInt64}
    (hkernel : s.KernelAnswers m (.kernel thread result))
    (hcalls : s.Undisturbed m (.kernel thread result)) :
    (s.step m (.kernel thread result)).Inv m ∧ s.Kept m (.kernel thread result) := by
  cases hstage : s.stages thread with
  | idle | returned =>
    refine h.stepSame ?_ (fun _ _ he => nomatch he) fun _ he => nomatch he
    simp only [State.step, hstage, ite_self]
  | entered c =>
    have hstep := step_kernel (m := m) h.running hstage result
    have hinv : (s.step m (.kernel thread result)).Inv m := by
      rw [hstep]
      by_cases hremaps : ¬ IsError result ∧ c.Remaps
      · exact h.kernel hstage hremaps.1 hremaps.2 hkernel hcalls
      · have hother : IsError result ∨ ¬ c.Remaps := by
          rwa [not_and_or, not_not] at hremaps
        rw [afterKernel_eq hother]
        apply h.setStage
        · rw [Waiting, hstage]
          exact not_false
        · exact hremaps
        · intro c' hc'
          cases hc'
          exact h.known thread c (by rw [hstage]; rfl)
    refine ⟨hinv, Kept.of_heap hinv (by rw [hstep]; rfl) (fun _ he => nomatch he) ?_⟩
    intro _ _ _ he
    cases he

theorem answer_of_exit {thread : ℕ} {c : Call} {result : UInt64}
    (hstage : s.stages thread = .returned c result) {given : UInt64}
    (hexit : translateBrkExit s.heap s.heapPageSize c result = some (heap, given)) (thread' : ℕ)
    (he : Event.leave thread = .leave thread') : ∀ got ∈ s.answer thread', got = given := by
  intro got hgot
  cases he
  rw [State.answer, hstage] at hgot
  simpa only [hexit, Option.map_some, Option.mem_some_iff, eq_comm] using hgot

/-- A call leaves that has moved the end of the heap. -/
theorem Inv.stepRemapped (h : s.Inv m) {thread : ℕ} {c : Call} {result : UInt64}
    (hstage : s.stages thread = .returned c result) (hremaps : ¬ IsError result ∧ c.Remaps) :
    (s.step m (.leave thread)).Inv m ∧ s.Kept m (.leave thread) := by
  have hexit := translateBrkExit_waiting h hstage hremaps.1 hremaps.2
  have hstep := step_leave (m := m) h.running hstage hexit
  have hright := (h.known thread c (by rw [hstage]; rfl)).2
  obtain ⟨-, hfresh, -⟩ := h.waiting thread c result hstage hremaps.1 hremaps.2
  have hinv : (s.step m (.leave thread)).Inv m := by
    rw [hstep]
    exact h.commit hstage hremaps.1 hremaps.2
  refine ⟨hinv, hinv.running, ?_, ?_, ?_, fun _ _ _ he => nomatch he⟩
  · intro hne
    rw [hstep]
    exact (hfresh.made h.made hright hremaps.2).2.2 hne
  · intro thread' he got hgot _
    rw [answer_of_exit hstage hexit thread' he got hgot, hstep]
    rfl
  · intro thread' c' result' he hstage' hfails
    cases he
    rw [hstage] at hstage'
    cases hstage'
    refine absurd (hfails.resolve_left hremaps.1) ?_
    obtain hmaps | hmremap := hremaps.2
    · rw [(hfresh.1 hmaps).1]
      exact UInt64.not_lt_zero
    · rw [Call.Right, hmremap] at hright
      exact UInt64.not_lt.2 hright.2.1

/-- A call leaves that has changed nothing. -/
theorem Inv.stepOther (h : s.Inv m) {thread : ℕ} {c : Call} {result : UInt64}
    (hcalls : s.Undisturbed m (.leave thread)) (hstage : s.stages thread = .returned c result)
    (hremaps : ¬ (¬ IsError result ∧ c.Remaps)) :
    (s.step m (.leave thread)).Inv m ∧ s.Kept m (.leave thread) := by
  have hother : IsError result ∨ ¬ c.Remaps := by
    rwa [not_and_or, not_not] at hremaps
  obtain ⟨disabled, given, hexit, hkeep, hgive, hend⟩ :=
    translateBrkExit_other h hcalls hstage hother
  have hstep := step_leave (m := m) h.running hstage hexit
  have hinv : (s.step m (.leave thread)).Inv m := by
    rw [hstep]
    apply (h.setDisabled hgive hkeep).setStage
    · rw [Waiting]
      simp only [hstage]
      exact hremaps
    · exact not_false
    · intro c' hc'
      cases hc'
  refine ⟨hinv, hinv.running, fun _ => by rw [hstep]; rfl, ?_, ?_, fun _ _ _ he => nomatch he⟩
  · intro thread' he got hgot hne
    rw [hstep] at hne ⊢
    rw [answer_of_exit hstage hexit thread' he got hgot]
    exact hend hne
  · intro _ _ _ _ _ _
    rw [hstep]
    rfl

/-- What one step keeps. -/
theorem Inv.step (h : s.Inv m) (hkernel : s.KernelAnswers m e) (hcalls : s.Undisturbed m e) :
    (s.step m e).Inv m ∧ s.Kept m e := by
  cases e with
  | enter thread newBrk => exact h.stepEnter thread newBrk
  | kernel thread result => exact h.stepKernel hkernel hcalls
  | leave thread =>
    cases hstage : s.stages thread with
    | idle | entered =>
      refine h.stepSame ?_ (fun _ _ he => nomatch he) ?_
      · simp only [State.step, hstage, ite_self]
      · intro thread' he c result hreturned
        cases he
        rw [hstage] at hreturned
        cases hreturned
    | returned c result =>
      by_cases hremaps : ¬ IsError result ∧ c.Remaps
      · exact h.stepRemapped hstage hremaps
      · exact h.stepOther hcalls hstage hremaps

end State

/-! ### Runs -/

/-- The heap of `brk`: in a run whose calls do not disturb one another, every step keeps the heap
consistent, and the mapping is the region of the heap in every state. -/
theorem heap_of_run (m : Machine) (events : List Event)
    (hkernel : AllSteps (State.step m) (State.KernelAnswers m) State.initial events)
    (hcalls : AllSteps (State.step m) (State.Undisturbed m) State.initial events) :
    AllSteps (State.step m) (State.Kept m) State.initial events ∧
      ∀ s ∈ states (State.step m) State.initial events, s.RegionRight m := by
  have hboth := (allSteps_and _ _ _ _).2 ⟨hkernel, hcalls⟩
  have hstart := State.Inv.initial m
  constructor
  · exact allSteps_of_invariant (fun s e hs hC => hs.step hC.1 hC.2) hstart hboth
  · intro s hs
    have hinv : s.Inv m :=
      invariant_states (fun s e hC hs => (hs.step hC.1 hC.2).1) hstart hboth s hs
    exact hinv.region

/-- A machine with pages of 4096 bytes. -/
def smallMachine : Machine := ⟨4096, by decide, 0x10000, false⟩

/-- The heap is made, and grows by six kilobytes. -/
theorem heap_of_run_grow :
    AllSteps (State.step smallMachine) (State.Kept smallMachine) State.initial
      [.enter 0 0, .kernel 0 0x10000, .leave 0, .enter 0 0x12800, .kernel 0 0x10000, .leave 0] ∧
    ∀ s ∈ states (State.step smallMachine) State.initial
      [.enter 0 0, .kernel 0 0x10000, .leave 0, .enter 0 0x12800, .kernel 0 0x10000, .leave 0],
      s.RegionRight smallMachine := by
  apply heap_of_run
  · refine ⟨trivial, ?_, trivial, trivial, ?_, trivial, trivial⟩
    · intro c hc _
      cases hc
      exact ⟨fun _ => by decide, fun h => nomatch h⟩
    · intro c hc _
      cases hc
      exact ⟨fun h => absurd h (by decide), fun _ => by decide⟩
  · have hnobody : ∀ (stages : ℕ → Stage) (c : Call), (∀ other, other ≠ 0 → stages other = .idle) →
        ∀ other, ¬ (Function.update stages 0 (.entered c) other).Waits := by
      intro stages c hidle other
      by_cases hzero : other = 0
      · rw [hzero, Function.update_self]
        exact not_false
      · rw [Function.update_of_ne hzero, hidle other hzero]
        exact not_false
    refine ⟨trivial, ?_, ?_, trivial, ?_, ?_, trivial⟩
    · intro c hc _ _
      exact ⟨hnobody _ _ fun _ _ => rfl, fun _ => ⟨rfl, rfl⟩, fun h => by cases hc; cases h⟩
    · intro c result hc
      cases hc
      exact ⟨fun _ herror => absurd herror (by decide), fun h => nomatch h⟩
    · intro c hc _ _
      refine ⟨hnobody _ _ fun other hzero => ?_, fun h => ?_, fun _ => ?_⟩
      · change Function.update (Function.update (Function.update _ 0 _) 0 _) 0 _ other = _
        rw [Function.update_of_ne hzero, Function.update_of_ne hzero, Function.update_of_ne hzero]
        rfl
      · cases hc
        exact absurd h (by decide)
      · cases hc
        decide
    · intro c result hc
      cases hc
      exact ⟨fun h => absurd h (by decide), fun h => nomatch h⟩

/-- Two threads make their first call at once, and the exit stop of the second moves the heap that
the first has been given. -/
theorem first_calls_overlap :
    ¬ ∀ (m : Machine) (events : List Event),
      AllSteps (State.step m) (State.KernelAnswers m) State.initial events →
        AllSteps (State.step m) (State.Kept m) State.initial events ∧
          ∀ s ∈ states (State.step m) State.initial events, s.RegionRight m := by
  intro h
  have hkept := (h smallMachine [.enter 0 0, .enter 1 0, .kernel 0 0x10000, .kernel 1 0x20000,
    .leave 0, .leave 1] ⟨trivial, trivial, ?_, ?_, trivial, trivial, trivial⟩).1
  · have hbase := hkept.2.2.2.2.2.1.base (by decide)
    revert hbase
    decide
  · intro c hc _
    cases hc
    exact ⟨fun _ => by decide, fun h => nomatch h⟩
  · intro c hc _
    cases hc
    exact ⟨fun _ => by decide, fun h => nomatch h⟩

end NeoProot.Brk
