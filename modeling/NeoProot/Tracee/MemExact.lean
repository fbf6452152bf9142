import NeoProot.Tracee.Mem

/-!
# Which bytes an access of the tracee's memory needs

An access needs the bytes of its range.  Through `ptrace` it needs the rest of their last
word as well, which may lie on another page.

## Main definitions

* `WriteExact`, `ReadExact`, `StringExact` — an access depends on the bytes it needs.
* `access_exact_iff` — when it does.
-/

namespace NeoProot.Mem
open PagedMemory

/-- The bytes of the words that so many bytes take. -/
def roundUp (n : ℕ) : ℕ := (n + 7) / 8 * 8

/-- The bytes of a string with its NUL, or all of them. -/
def stringLength (m : TraceeMemory) (a maxSize : ℕ) : ℕ :=
  if findZero (m.values a maxSize) < maxSize then findZero (m.values a maxSize) + 1 else maxSize

section

variable (access : Access) (m : TraceeMemory) (a : ℕ)

/-- **A write depends on its bytes**, and changes no other. -/
structure WriteExact (src : List UInt8) : Prop where
  succeeds : (writeData access m a src).2 = true ↔ m.Mapped a src.length
  written : m.Mapped a src.length → (writeData access m a src).1 = m.put a src
  outside : ∀ x, x < a ∨ a + src.length ≤ x →
    (writeData access m a src).1.value x = m.value x

/-- **A read depends on its bytes.** -/
def ReadExact (size : ℕ) : Prop :=
  readData access m a size = if m.Mapped a size then some (m.values a size) else none

/-- **Reading a string depends on its bytes.** -/
def StringExact (maxSize : ℕ) : Prop :=
  if m.Mapped a (stringLength m a maxSize) then
    ∃ dest, readString access m a maxSize = some ((stringLength m a maxSize : ℤ), dest) ∧
      dest.take (stringLength m a maxSize) = m.values a (stringLength m a maxSize)
  else readString access m a maxSize = none

end

variable {access : Access} {m : TraceeMemory} {a n k rest : ℕ} {src : List UInt8}

theorem le_roundUp (n : ℕ) : n ≤ roundUp n := by
  rw [roundUp]
  omega

theorem roundUp_add (n : ℕ) : roundUp (8 + n) = 8 + roundUp n := by
  rw [roundUp, roundUp]
  omega

theorem roundUp_eq_eight (hpos : 0 < n) (hle : n ≤ 8) : roundUp n = 8 := by
  rw [roundUp]
  omega

/-! ### Writing -/

/-- Another memory that differs in a range only. -/
structure Within (m m' : TraceeMemory) (a n : ℕ) : Prop where
  pageSize_eq : m'.pageSize = m.pageSize
  isMapped_eq : m'.isMapped = m.isMapped
  outside : ∀ x, x < a ∨ a + n ≤ x → m'.value x = m.value x

theorem Within.mapped {m' : TraceeMemory} {b l : ℕ} (h : Within m m' a n) :
    m'.Mapped b l ↔ m.Mapped b l := by
  rw [Mapped, Mapped, h.isMapped_eq, h.pageSize_eq]

theorem Within.trans {m' m₂ : TraceeMemory} (h : Within m m' a n) (h' : Within m' m₂ (a + n) k) :
    Within m m₂ a (n + k) where
  pageSize_eq := h'.pageSize_eq.trans h.pageSize_eq
  isMapped_eq := h'.isMapped_eq.trans h.isMapped_eq
  outside x hx := (h'.outside x (by omega)).trans (h.outside x (by omega))

theorem Within.mono {m' : TraceeMemory} (h : Within m m' a n) (hle : n ≤ k) : Within m m' a k where
  pageSize_eq := h.pageSize_eq
  isMapped_eq := h.isMapped_eq
  outside x hx := h.outside x (by omega)

theorem within_refl : Within m m a n := ⟨rfl, rfl, fun _ _ => rfl⟩

theorem within_put (src : List UInt8) : Within m (m.put a src) a src.length :=
  ⟨rfl, rfl, fun _ hx => value_put_outside hx⟩

theorem within_putMapped (src : List UInt8) : Within m (m.putMapped a src) a src.length := by
  refine (within_put (src.take (m.mappedLength a src.length))).mono ?_
  rw [List.length_take]
  exact Nat.min_le_right ..

/-- The word behind the last full one is written with its own other bytes. -/
theorem writeTail_eq (hlt : src.length < 8) :
    writeTail m a src =
      if m.Mapped a (roundUp src.length) then (m.put a src, true) else (m, false) := by
  rw [writeTail]
  by_cases hnil : src = []
  · have hzero : roundUp ([] : List UInt8).length = 0 := rfl
    rw [if_pos hnil, hnil, hzero, if_pos mapped_zero, put_nil]
  have hpos := List.length_pos_iff.2 hnil
  rw [if_neg hnil, roundUp_eq_eight hpos hlt.le, peekData]
  by_cases hmapped : m.Mapped a 8
  · have hsplit : m.values a 8 = m.values a src.length ++
        m.values (a + src.length) (8 - src.length) := by
      rw [← values_add]
      congr 1
      omega
    have htail : (m.values a 8).drop src.length =
        m.values (a + src.length) (8 - src.length) := by
      rw [hsplit]
      exact List.drop_left' length_values
    have hword : (src ++ m.values (a + src.length) (8 - src.length)).length = 8 := by
      rw [List.length_append, length_values]
      omega
    have hkept : m.values (a + src.length) (8 - src.length) =
        (m.put a src).values (a + src.length) (8 - src.length) :=
      (values_put_outside (.inr (Nat.le_refl _))).symm
    rw [if_pos hmapped, wordSize, if_pos hmapped]
    dsimp only
    rw [htail, pokeData, putMapped_eq (by rw [hword]; exact hmapped), ← put_append, hword,
      decide_eq_true hmapped, hkept, put_values]
  · rw [if_neg hmapped, wordSize, if_neg hmapped]

theorem writeWords_eq_of_mapped (hk : src.length / 8 = k)
    (hmapped : m.Mapped a (roundUp src.length)) : writeWords k m a src = (m.put a src, true) := by
  induction k generalizing m a src with
  | zero =>
    rw [writeWords, writeTail_eq (by omega), if_pos hmapped]
  | succ k ih =>
    have hlen : src.length = 8 + (src.length - 8) := by omega
    rw [hlen, roundUp_add, mapped_add] at hmapped
    have hword : (src.take wordSize).length = 8 := by
      rw [List.length_take, wordSize]
      omega
    rw [writeWords, pokeData, hword, decide_eq_true hmapped.1,
      putMapped_eq (by rw [hword]; exact hmapped.1)]
    dsimp only
    rw [ih (by rw [List.length_drop, wordSize]; omega)
      (by rw [List.length_drop, wordSize]; exact hmapped.2)]
    have hjoin : (m.put a (src.take wordSize)).put (a + (src.take wordSize).length)
        (src.drop wordSize) = m.put a (src.take wordSize ++ src.drop wordSize) := put_append
    rw [hword, List.take_append_drop] at hjoin
    exact congrArg (·, true) hjoin

theorem writeWords_of_not_mapped (hk : src.length / 8 = k)
    (hmapped : ¬ m.Mapped a (roundUp src.length)) : (writeWords k m a src).2 = false ∧
      Within m (writeWords k m a src).1 a src.length := by
  induction k generalizing m a src with
  | zero =>
    rw [writeWords, writeTail_eq (by omega), if_neg hmapped]
    exact ⟨rfl, within_refl⟩
  | succ k ih =>
    have hlen : src.length = 8 + (src.length - 8) := by omega
    have hword : (src.take wordSize).length = 8 := by
      rw [List.length_take, wordSize]
      omega
    have hfirst := within_putMapped (m := m) (a := a) (src.take wordSize)
    rw [hword] at hfirst
    rw [writeWords, pokeData, hword]
    by_cases hpoke : m.Mapped a 8
    · rw [decide_eq_true hpoke]
      dsimp only
      have hdrop : (src.drop wordSize).length = src.length - 8 := by
        rw [List.length_drop, wordSize]
      have hrest : ¬ (m.putMapped a (src.take wordSize)).Mapped (a + 8)
          (roundUp (src.drop wordSize).length) := by
        rw [hfirst.mapped, hdrop]
        intro hback
        rw [hlen, roundUp_add, mapped_add] at hmapped
        exact hmapped ⟨hpoke, hback⟩
      obtain ⟨hfails, hwithin⟩ := ih (by rw [hdrop]; omega) hrest
      refine ⟨hfails, ?_⟩
      rw [hdrop] at hwithin
      rw [hlen]
      exact hfirst.trans hwithin
    · rw [decide_eq_false hpoke]
      exact ⟨rfl, hfirst.mono (by omega)⟩

/-- The vectored call serves so many bytes. -/
def Access.Serves (access : Access) (n : ℕ) : Prop :=
  vmFastThreshold ≤ n ∧ access.vectored = true

theorem writeData_of_serves (hserves : access.Serves src.length) :
    writeData access m a src = if m.Mapped a src.length then (m.put a src, true)
      else writeWords (src.length / wordSize) (m.putMapped a src) a src := by
  have hpos : src.length ≠ 0 := by
    have hle : vmFastThreshold ≤ src.length := hserves.1
    rw [vmFastThreshold] at hle
    omega
  rw [writeData, if_neg hpos, if_pos hserves.1, processVmWritev, if_pos hserves.2]
  by_cases hmapped : m.Mapped a src.length
  · rw [decide_eq_true hmapped, if_pos hmapped, putMapped_eq hmapped]
  · rw [decide_eq_false hmapped, if_neg hmapped]

theorem writeData_of_not_serves (hserves : ¬ access.Serves src.length) (hpos : src.length ≠ 0) :
    writeData access m a src = writeWords (src.length / wordSize) m a src := by
  rw [writeData, if_neg hpos]
  by_cases hle : vmFastThreshold ≤ src.length
  · have hvectored : ¬ access.vectored = true := fun h => hserves ⟨hle, h⟩
    rw [if_pos hle, processVmWritev, if_neg hvectored]
  · rw [if_neg hle]

/-- A write that succeeds has put its bytes. -/
theorem writeData_success (hok : (writeData access m a src).2 = true) :
    (writeData access m a src).1 = m.put a src := by
  have hfails : ∀ m', ¬ m'.Mapped a (roundUp src.length) →
      ¬ (writeWords (src.length / wordSize) m' a src).2 = true := by
    intro m' hround
    rw [wordSize, (writeWords_of_not_mapped rfl hround).1]
    exact Bool.false_ne_true
  by_cases hserves : access.Serves src.length
  · rw [writeData_of_serves hserves] at hok ⊢
    by_cases hmapped : m.Mapped a src.length
    · rw [if_pos hmapped]
    · rw [if_neg hmapped] at hok
      refine absurd hok (hfails _ ?_)
      rw [(within_putMapped (m := m) (a := a) src).mapped]
      exact fun h => hmapped (h.mono (le_roundUp _))
  by_cases hzero : src.length = 0
  · rw [List.length_eq_zero_iff.1 hzero, put_nil]
    rfl
  · rw [writeData_of_not_serves hserves hzero] at hok ⊢
    by_cases hround : m.Mapped a (roundUp src.length)
    · rw [wordSize, writeWords_eq_of_mapped rfl hround]
    · exact absurd hok (hfails m hround)

/-- **When a write depends on its bytes only.** -/
theorem writeExact_iff (src : List UInt8) : WriteExact access m a src ↔
    (m.Mapped a src.length → m.Mapped a (roundUp src.length) ∨ access.Serves src.length) := by
  have hshort : m.Mapped a (roundUp src.length) → m.Mapped a src.length :=
    fun h => h.mono (le_roundUp _)
  by_cases hserves : access.Serves src.length
  · refine iff_of_true ?_ fun _ => .inr hserves
    have heq := writeData_of_serves (m := m) (a := a) hserves
    by_cases hmapped : m.Mapped a src.length
    · rw [if_pos hmapped] at heq
      refine ⟨by simp [heq, hmapped], fun _ => by rw [heq], fun x hx => ?_⟩
      rw [heq]
      exact value_put_outside hx
    · have hfirst := within_putMapped (m := m) (a := a) src
      have hround : ¬ (m.putMapped a src).Mapped a (roundUp src.length) := by
        rw [hfirst.mapped]
        exact fun h => hmapped (hshort h)
      obtain ⟨hfails, hwithin⟩ := writeWords_of_not_mapped rfl hround
      rw [if_neg hmapped] at heq
      refine ⟨iff_of_false ?_ hmapped, fun h => absurd h hmapped, fun x hx => ?_⟩
      · rw [heq]
        exact Bool.eq_false_iff.1 hfails
      · rw [heq]
        exact (hwithin.outside x hx).trans (hfirst.outside x hx)
  by_cases hzero : src.length = 0
  · have hnil := List.length_eq_zero_iff.1 hzero
    subst hnil
    refine iff_of_true ⟨?_, ?_, ?_⟩ fun _ => .inl mapped_zero
    · exact iff_of_true rfl mapped_zero
    · intro _
      rw [put_nil]
      rfl
    · intro _ _
      rfl
  have heq := writeData_of_not_serves (m := m) (a := a) hserves hzero
  by_cases hround : m.Mapped a (roundUp src.length)
  · refine iff_of_true ?_ fun _ => .inl hround
    rw [wordSize, writeWords_eq_of_mapped rfl hround] at heq
    refine ⟨by simp [heq, hshort hround], fun _ => by rw [heq], fun x hx => ?_⟩
    rw [heq]
    exact value_put_outside hx
  · obtain ⟨hfails, hwithin⟩ := writeWords_of_not_mapped rfl hround
    constructor
    · intro hexact hmapped
      have hok := hexact.succeeds.2 hmapped
      rw [heq, wordSize, hfails] at hok
      cases hok
    · intro hcond
      have hmapped : ¬ m.Mapped a src.length := fun h => (hcond h).elim hround hserves
      refine ⟨iff_of_false ?_ hmapped, fun h => absurd h hmapped, fun x hx => ?_⟩
      · rw [heq]
        exact Bool.eq_false_iff.1 hfails
      · rw [heq]
        exact hwithin.outside x hx

/-! ### Reading -/

theorem readWords_eq (hrest : rest < 8) : readWords m k a rest =
    if m.Mapped a (roundUp (8 * k + rest)) then some (m.values a (8 * k + rest)) else none := by
  induction k generalizing a with
  | zero =>
    rw [readWords, Nat.mul_zero, Nat.zero_add]
    by_cases hzero : rest = 0
    · rw [if_pos hzero, hzero]
      exact (if_pos mapped_zero).symm
    · rw [if_neg hzero, roundUp_eq_eight (by omega) hrest.le, peekData, wordSize]
      split_ifs
      · rw [Option.map_some, take_values hrest.le]
      · rfl
  | succ k ih =>
    have hlen : 8 * (k + 1) + rest = 8 + (8 * k + rest) := by omega
    rw [readWords, hlen, roundUp_add, values_add, peekData, wordSize]
    by_cases hword : m.Mapped a 8
    · rw [if_pos hword]
      dsimp only
      rw [ih]
      by_cases hback : m.Mapped (a + 8) (roundUp (8 * k + rest))
      · rw [if_pos hback, if_pos (mapped_add.2 ⟨hword, hback⟩), Option.map_some]
      · rw [if_neg hback, if_neg fun h => hback (mapped_add.1 h).2, Option.map_none]
    · rw [if_neg hword, if_neg fun h => hword (mapped_add.1 h).1]

/-- **When a read depends on its bytes only.** -/
theorem readExact_iff (n : ℕ) : ReadExact access m a n ↔
    (m.Mapped a n → m.Mapped a (roundUp n) ∨ access.Serves n) := by
  rw [ReadExact, readData]
  by_cases hzero : n = 0
  · rw [if_pos hzero, hzero, if_pos mapped_zero]
    exact iff_of_true rfl fun _ => .inl mapped_zero
  have hsum : 8 * (n / 8) + n % 8 = n := Nat.div_add_mod n 8
  have hwords := readWords_eq (m := m) (k := n / 8) (a := a) (Nat.mod_lt n (by decide : 0 < 8))
  rw [hsum] at hwords
  rw [if_neg hzero]
  have hshort : m.Mapped a (roundUp n) → m.Mapped a n := fun h => h.mono (le_roundUp _)
  by_cases hserves : access.Serves n
  · refine iff_of_true ?_ fun _ => .inr hserves
    rw [if_pos hserves.1, processVmReadv]
    by_cases hmapped : m.Mapped a n
    · rw [if_pos ⟨hserves.2, hmapped⟩, if_pos hmapped]
    · rw [if_neg fun h => hmapped h.2, if_neg hmapped]
      dsimp only
      rw [wordSize, hwords, if_neg fun h => hmapped (hshort h)]
  · have hnone : (if vmFastThreshold ≤ n then processVmReadv access m a n else none) = none := by
      by_cases hle : vmFastThreshold ≤ n
      · rw [if_pos hle, processVmReadv, if_neg fun h => hserves ⟨hle, h.1⟩]
      · rw [if_neg hle]
    rw [hnone]
    dsimp only
    rw [wordSize, hwords]
    by_cases hround : m.Mapped a (roundUp n)
    · rw [if_pos hround, if_pos (hshort hround)]
      exact iff_of_true rfl fun _ => .inl hround
    · rw [if_neg hround]
      by_cases hmapped : m.Mapped a n
      · rw [if_pos hmapped]
        exact iff_of_false (by simp) fun h => (h hmapped).elim hround hserves
      · rw [if_neg hmapped]
        exact iff_of_true rfl fun h => absurd h hmapped

/-! ### Strings -/

theorem findZero_append (buf more : List UInt8) :
    findZero (buf ++ more) = if findZero buf < buf.length then findZero buf
      else findZero more + buf.length :=
  List.findIdx_append ..

theorem findZero_le (buf : List UInt8) : findZero buf ≤ buf.length := List.findIdx_le_length

theorem findZero_values_le (m : TraceeMemory) (a n : ℕ) : findZero (m.values a n) ≤ n := by
  have hle := findZero_le (m.values a n)
  rw [length_values] at hle
  exact hle

theorem stringLength_le (m : TraceeMemory) (a n : ℕ) : stringLength m a n ≤ n := by
  rw [stringLength]
  split_ifs
  · omega
  · exact Nat.le_refl n

/-- A string ends in the first part of a range, or its rest is in the second. -/
theorem stringLength_add (m : TraceeMemory) (a n k : ℕ) :
    stringLength m a (n + k) =
      if findZero (m.values a n) < n then findZero (m.values a n) + 1
      else n + stringLength m (a + n) k := by
  have hle := findZero_values_le m (a + n) k
  rw [stringLength, values_add, findZero_append, length_values]
  by_cases hfirst : findZero (m.values a n) < n
  · rw [if_pos hfirst, if_pos hfirst, if_pos (by omega)]
  · rw [if_neg hfirst, if_neg hfirst, stringLength]
    by_cases hsecond : findZero (m.values (a + n) k) < k
    · rw [if_pos hsecond, if_pos (by omega)]
      omega
    · rw [if_neg hsecond, if_neg (by omega)]

theorem stringWords_eq (hrest : rest < 8) : stringWords m k a rest =
    if m.Mapped a (roundUp (stringLength m a (8 * k + rest))) then
      some (stringLength m a (8 * k + rest),
        m.values a (min (roundUp (stringLength m a (8 * k + rest))) (8 * k + rest)))
    else none := by
  induction k generalizing a with
  | zero =>
    rw [stringWords, Nat.mul_zero, Nat.zero_add]
    by_cases hzero : rest = 0
    · subst hzero
      have hnone : stringLength m a 0 = 0 := Nat.le_zero.1 (stringLength_le m a 0)
      rw [if_pos rfl, hnone, Nat.min_zero]
      exact (if_pos mapped_zero).symm
    · have hlen : stringLength m a rest =
          if findZero (m.values a rest) < rest then findZero (m.values a rest) + 1 else rest := rfl
      have hpos : 0 < stringLength m a rest := by
        rw [hlen]
        split_ifs <;> omega
      have hle := stringLength_le m a rest
      rw [if_neg hzero, roundUp_eq_eight hpos (by omega), peekData, wordSize,
        Nat.min_eq_right hrest.le]
      by_cases hword : m.Mapped a 8
      · rw [if_pos hword, if_pos hword]
        dsimp only
        rw [take_values hrest.le, hlen]
        split_ifs <;> rfl
      · rw [if_neg hword, if_neg hword]
  | succ k ih =>
    have hsum : 8 * (k + 1) + rest = 8 + (8 * k + rest) := by omega
    rw [stringWords, hsum, stringLength_add, peekData, wordSize]
    by_cases hword : m.Mapped a 8
    · rw [if_pos hword]
      dsimp only
      by_cases hfound : findZero (m.values a 8) < 8
      · rw [if_pos hfound, if_pos hfound, roundUp_eq_eight (by omega) (by omega), if_pos hword,
          Nat.min_eq_left (by omega)]
      · rw [if_neg hfound, if_neg hfound, ih, roundUp_add, Nat.add_min_add_left, values_add]
        by_cases hback : m.Mapped (a + 8) (roundUp (stringLength m (a + 8) (8 * k + rest)))
        · rw [if_pos hback, if_pos (mapped_add.2 ⟨hword, hback⟩), Option.map_some]
        · rw [if_neg hback, if_neg fun h => hback (mapped_add.1 h).2, Option.map_none]
    · have hnot : ∀ n, 0 < n → ¬ m.Mapped a (roundUp n) := by
        intro n hn h
        refine hword (h.mono ?_)
        rw [roundUp]
        omega
      rw [if_neg hword, if_neg]
      apply hnot
      split_ifs <;> omega

/-- Page by page, a string is found if it has a NUL and its bytes are mapped. -/
theorem stringPages_spec (hvectored : access.vectored = true) {fuel left : ℕ}
    (hfuel : left ≤ fuel) :
    if findZero (m.values a left) < left ∧ m.Mapped a (findZero (m.values a left) + 1) then
      ∃ dest, stringPages access m fuel a left = some (findZero (m.values a left) + 1, dest) ∧
        dest.take (findZero (m.values a left) + 1) =
          m.values a (findZero (m.values a left) + 1)
    else stringPages access m fuel a left = none := by
  induction fuel generalizing a left with
  | zero =>
    rw [if_neg fun h => by omega]
    rfl
  | succ fuel ih =>
    rw [stringPages]
    by_cases hzero : left = 0
    · rw [if_pos hzero, if_neg fun h => by omega]
    have hpage := Nat.mod_lt a m.pageSize_pos
    rw [if_neg hzero]
    dsimp only
    generalize hsize : min (m.pageSize - a % m.pageSize) left = copySize
    have hpos : 0 < copySize := by omega
    have hwithin : copySize ≤ m.pageSize - a % m.pageSize := by omega
    obtain ⟨more, rfl⟩ := Nat.exists_eq_add_of_le (show copySize ≤ left by omega)
    have hzeroOff : findZero (m.values a (copySize + more)) =
        if findZero (m.values a copySize) < copySize then findZero (m.values a copySize)
        else findZero (m.values (a + copySize) more) + copySize := by
      rw [values_add, findZero_append, length_values]
    rw [processVmReadv, hzeroOff, Nat.add_sub_cancel_left]
    by_cases hmapped : m.Mapped a copySize
    · rw [if_pos (⟨hvectored, hmapped⟩ : access.vectored = true ∧ m.Mapped a copySize)]
      dsimp only
      by_cases hfound : findZero (m.values a copySize) < copySize
      · rw [if_pos hfound, if_pos hfound,
          if_pos (⟨by omega, hmapped.mono (by omega)⟩ : _ ∧ m.Mapped a _)]
        exact ⟨m.values a copySize, rfl, take_values (by omega)⟩
      · rw [if_neg hfound, if_neg hfound]
        have hrest := @ih (a + copySize) more (by omega)
        have hiff : findZero (m.values (a + copySize) more) + copySize < copySize + more ∧
            m.Mapped a (findZero (m.values (a + copySize) more) + copySize + 1) ↔
              findZero (m.values (a + copySize) more) < more ∧
                m.Mapped (a + copySize) (findZero (m.values (a + copySize) more) + 1) := by
          have hsum : findZero (m.values (a + copySize) more) + copySize + 1 =
              copySize + (findZero (m.values (a + copySize) more) + 1) := by omega
          rw [hsum, mapped_add, and_iff_right hmapped]
          refine and_congr_left' ?_
          omega
        simp only [hiff]
        split_ifs at hrest ⊢ with hcond
        · obtain ⟨dest, heq, htake⟩ := hrest
          refine ⟨m.values a copySize ++ dest, ?_, ?_⟩
          · rw [heq, Option.map_some]
            congr 2
            omega
          · have hsum : findZero (m.values (a + copySize) more) + copySize + 1 =
                copySize + (findZero (m.values (a + copySize) more) + 1) := by omega
            rw [hsum, values_add, ← htake]
            nth_rewrite 1 [← length_values (m := m) (a := a) (n := copySize)]
            rw [List.take_append, List.take_of_length_le (Nat.le_add_right ..),
              Nat.add_sub_cancel_left]
        · rw [hrest, Option.map_none]
    · have hrefused : ¬ (access.vectored = true ∧ m.Mapped a copySize) := fun h => hmapped h.2
      rw [if_neg hrefused, if_neg]
      rintro ⟨-, h⟩
      exact hmapped ((mapped_page hpos hwithin Nat.one_pos hpos).2 (h.mono (by omega)))

theorem toInt_eq_iff (n : ℕ) : toInt n = (n : ℤ) ↔ n < 2 ^ 31 := by
  change Int.bmod n (2 ^ 32) = (n : ℤ) ↔ n < 2 ^ 31
  constructor
  · intro h
    have hlt := Int.bmod_lt (x := n) (m := 2 ^ 32) (by decide)
    rw [h] at hlt
    omega
  · intro h
    exact Int.bmod_eq_of_le (by omega) (by omega)

/-- Word by word. -/
theorem readString_of_words (hpos : n ≠ 0)
    (hpages : shortStringMax < n → access.haveProcessVm = true →
      stringPages access m n a n = none) :
    readString access m a n = if m.Mapped a (roundUp (stringLength m a n)) then
      some (toInt (stringLength m a n),
        m.values a (min (roundUp (stringLength m a n)) n)) else none := by
  have hsum : 8 * (n / 8) + n % 8 = n := Nat.div_add_mod n 8
  have hwords := stringWords_eq (m := m) (k := n / 8) (a := a) (Nat.mod_lt n (by decide : 0 < 8))
  rw [hsum] at hwords
  have hnone : (if n ≤ shortStringMax ∨ access.haveProcessVm = false then none
      else stringPages access m n a n) = none := by
    split_ifs with hshort
    · rfl
    · rw [not_or, Nat.not_le, Bool.not_eq_false] at hshort
      exact hpages hshort.1 hshort.2
  rw [readString, if_neg hpos]
  dsimp only
  rw [hnone, wordSize, hwords]
  split_ifs
  · rfl
  · rfl

theorem stringPages_of_refused (hvectored : ¬ access.vectored = true) {fuel left : ℕ} :
    stringPages access m fuel a left = none := by
  cases fuel with
  | zero => rfl
  | succ fuel =>
    have hrefused : ∀ size, ¬ (access.vectored = true ∧ m.Mapped a size) :=
      fun size h => hvectored h.1
    simp only [stringPages, processVmReadv, if_neg (hrefused _), ite_self]

/-- **When reading a string depends on its bytes only.** -/
theorem stringExact_iff (n : ℕ) : StringExact access m a n ↔
    (m.Mapped a (stringLength m a n) → stringLength m a n < 2 ^ 31 ∧
      (m.Mapped a (roundUp (stringLength m a n)) ∨
        shortStringMax < n ∧ access.haveProcessVm = true ∧ access.vectored = true ∧
          findZero (m.values a n) < n)) := by
  have hshort : m.Mapped a (roundUp (stringLength m a n)) → m.Mapped a (stringLength m a n) :=
    fun h => h.mono (le_roundUp _)
  rw [StringExact]
  by_cases hzero : n = 0
  · subst hzero
    have hnone : stringLength m a 0 = 0 := Nat.le_zero.1 (stringLength_le m a 0)
    rw [hnone, if_pos mapped_zero]
    exact iff_of_true ⟨[], rfl, rfl⟩ fun _ => ⟨by decide, .inl mapped_zero⟩
  by_cases hpaged : (shortStringMax < n ∧ access.haveProcessVm = true ∧ access.vectored = true) ∧
      findZero (m.values a n) < n ∧ m.Mapped a (findZero (m.values a n) + 1)
  · -- The string is found page by page.
    obtain ⟨⟨hlong, hvm, hvectored⟩, hfound, hmapped⟩ := hpaged
    have hlen : stringLength m a n = findZero (m.values a n) + 1 := if_pos hfound
    have hspec := stringPages_spec (m := m) (a := a) hvectored (Nat.le_refl n)
    rw [if_pos ⟨hfound, hmapped⟩] at hspec
    obtain ⟨dest, heq, htake⟩ := hspec
    have hread : readString access m a n = some (toInt (findZero (m.values a n) + 1), dest) := by
      have hfast : ¬ (n ≤ shortStringMax ∨ access.haveProcessVm = false) := by
        rw [not_or, Nat.not_le, Bool.not_eq_false]
        exact ⟨hlong, hvm⟩
      rw [readString, if_neg hzero]
      dsimp only
      rw [if_neg hfast, heq]
    rw [hlen, if_pos hmapped, hread]
    constructor
    · rintro ⟨dest', hsome, -⟩ -
      rw [Option.some.injEq, Prod.mk.injEq] at hsome
      exact ⟨(toInt_eq_iff _).1 hsome.1, .inr ⟨hlong, hvm, hvectored, hfound⟩⟩
    · intro hcond
      exact ⟨dest, by rw [(toInt_eq_iff _).2 (hcond hmapped).1], htake⟩
  · have hpages : shortStringMax < n → access.haveProcessVm = true →
        stringPages access m n a n = none := by
      intro hlong hvm
      by_cases hvectored : access.vectored = true
      · have hspec := stringPages_spec (m := m) (a := a) hvectored (Nat.le_refl n)
        rw [if_neg fun h => hpaged ⟨⟨hlong, hvm, hvectored⟩, h⟩] at hspec
        exact hspec
      · exact stringPages_of_refused hvectored
    have hread := readString_of_words hzero hpages
    by_cases hround : m.Mapped a (roundUp (stringLength m a n))
    · rw [if_pos hround] at hread
      rw [if_pos (hshort hround), hread]
      have htake : (m.values a (min (roundUp (stringLength m a n)) n)).take
          (stringLength m a n) = m.values a (stringLength m a n) :=
        take_values (Nat.le_min.2 ⟨le_roundUp _, stringLength_le m a n⟩)
      constructor
      · rintro ⟨dest, hsome, -⟩ -
        rw [Option.some.injEq, Prod.mk.injEq] at hsome
        exact ⟨(toInt_eq_iff _).1 hsome.1, .inl hround⟩
      · intro hcond
        exact ⟨_, by rw [(toInt_eq_iff _).2 (hcond (hshort hround)).1], htake⟩
    · rw [if_neg hround] at hread
      by_cases hmapped : m.Mapped a (stringLength m a n)
      · rw [if_pos hmapped, hread]
        refine iff_of_false (by simp) fun hcond => ?_
        obtain ⟨-, hor⟩ := hcond hmapped
        obtain ⟨hlong, hvm, hvectored, hfound⟩ := hor.resolve_left hround
        have hlen : stringLength m a n = findZero (m.values a n) + 1 := if_pos hfound
        rw [hlen] at hmapped
        exact hpaged ⟨⟨hlong, hvm, hvectored⟩, hfound, hmapped⟩
      · rw [if_neg hmapped]
        exact iff_of_true hread fun h => absurd h hmapped

/-! ### All accesses -/

/-- **When an access depends on the bytes it needs only**: the bytes that complete their
last word are mapped too, or the vectored calls serve it. -/
theorem access_exact_iff (access : Access) (m : TraceeMemory) (a n : ℕ) :
    ((∀ src : List UInt8, src.length = n → WriteExact access m a src) ∧ ReadExact access m a n ∧
        StringExact access m a n) ↔
      (m.Mapped a n → m.Mapped a (roundUp n) ∨ access.Serves n) ∧
        (m.Mapped a (stringLength m a n) → stringLength m a n < 2 ^ 31 ∧
          (m.Mapped a (roundUp (stringLength m a n)) ∨
            shortStringMax < n ∧ access.haveProcessVm = true ∧ access.vectored = true ∧
              findZero (m.values a n) < n)) := by
  rw [readExact_iff, stringExact_iff, ← and_assoc]
  refine and_congr_left' ⟨fun h => h.2, fun h => ⟨fun src hsrc => ?_, h⟩⟩
  rw [writeExact_iff, hsrc]
  exact h

theorem pageSize_4096_pos : 0 < 4096 := by decide

/-- One page is mapped. -/
def onePage : TraceeMemory where
  pageSize := 4096
  isMapped page := page == 0
  value _ := 0
  pageSize_pos := pageSize_4096_pos

/-- The last byte of the page cannot be read. -/
theorem last_byte_unread : onePage.Mapped 4095 1 ∧
    readData ⟨true, true⟩ onePage 4095 1 = none ∧ ¬ ReadExact ⟨true, true⟩ onePage 4095 1 := by
  have hmapped : onePage.Mapped 4095 1 := by decide
  have hread : readData ⟨true, true⟩ onePage 4095 1 = none := by decide +kernel
  refine ⟨hmapped, hread, fun hexact => ?_⟩
  rw [ReadExact, hread, if_pos hmapped] at hexact
  cases hexact

end NeoProot.Mem
