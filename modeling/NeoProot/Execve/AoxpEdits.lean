import NeoProot.Execve.Aoxp
import NeoProot.Tracee.MemExact
import NeoProot.Lib.Run

/-!
# Edited arrays

An array of pointers stands for a list of entries: addresses of the tracee, and strings that
the tracer has written.  The edits of the array are edits of the list, and the array that is
pushed shows the list to the tracee.

## Main definitions

* `Entry`, `editEntry` — the list, and what an edit does to it.
* `Orderly` — an edit that moves no entry that was lost.
* `Shows` — an array of the tracee's memory holds a list.
* `push_shows_iff` — when the array that is pushed holds the edited list.
-/

namespace NeoProot.Aoxp
open Mem PagedMemory

/-! ### The list -/

/-- An entry of the list: an address of the tracee (0 is NULL), or a new string. -/
inductive Entry
  | address (a : ℕ)
  | string (s : Bytes)
  deriving DecidableEq, Repr

/-- What an entry of the array stands for. -/
def XPointer.entry (x : XPointer) : Entry :=
  match x.replaced with
  | some s => .string s
  | none => .address x.remote

/-- Strings take the places from `index` on. -/
def writeEntries (es : List Entry) (index : ℕ) : List Bytes → List Entry
  | [] => es
  | s :: strings =>
    if es.length ≤ index then es
    else writeEntries (es.set index (.string (nativeStrdup s))) (index + 1) strings

/-- Holes are made in front of `index`, or entries in front of it are taken away. -/
def resizeEntries (es : List Entry) (index : ℕ) (delta : ℤ) : List Entry :=
  if 0 ≤ delta then
    es.take index ++ List.replicate delta.toNat (.address 0) ++ es.drop index
  else es.take (min index es.length - (-delta).toNat) ++ es.drop index

/-- An edit of the list. -/
def editEntry (es : List Entry) : Edit → List Entry
  | .read _ => es
  | .write index strings => writeEntries es index strings
  | .resize index delta => resizeEntries es index delta

/-- An edit that leaves an entry, and moves none that was lost when the array was made
shorter. -/
def Orderly (t : Tracer) (xs : List XPointer) : Edit → Prop
  | .resize index delta => delta < 0 → 0 < xs.length + delta ∧
      ∀ i x, index ≤ i → xs.length - (-delta).toNat ≤ i → xs[i]? = some x →
        t.leftBehind xs (xs.length - (-delta).toNat) i = x
  | _ => True

/-- The word stands for the entry. -/
def Denotes (m : TraceeMemory) (word : ℕ) : Entry → Prop
  | .address a => word = a
  | .string s => m.values word (s.length + 1) = s ++ [0]

/-- The words at an address stand for the list. -/
def Shows (m : TraceeMemory) (addr : ℕ) (es : List Entry) : Prop :=
  ∀ i e, es[i]? = some e → Denotes m (wordAt m (addr + i * wordSize)) e

/-- The list up to its NULL, this one included. -/
def upToNull : List Entry → List Entry
  | [] => []
  | e :: es => if e = .address 0 then [e] else e :: upToNull es

variable {t : Tracer} {xs : List XPointer} {x : XPointer} {m : TraceeMemory}

/-! ### Edits -/

theorem entry_read (hx : x.remote ≠ 0) (s : Bytes) :
    XPointer.entry ⟨x.remote, some s⟩ = x.entry := by
  rw [XPointer.entry, XPointer.entry, XPointer.replaced, XPointer.replaced, if_neg hx, if_neg hx]

theorem map_entry_set {i : ℕ} {y : XPointer} (hx : xs[i]? = some x) (hy : y.entry = x.entry) :
    (xs.set i y).map XPointer.entry = xs.map XPointer.entry := by
  rw [List.map_set, hy]
  apply List.ext_getElem?
  intro j
  by_cases hj : i = j
  · subst hj
    obtain ⟨hlt, -⟩ := List.getElem?_eq_some_iff.1 hx
    rw [List.getElem?_set_self (by rw [List.length_map]; exact hlt), List.getElem?_map, hx,
      Option.map_some]
  · rw [List.getElem?_set_ne hj]

/-- Reading an entry changes what the tracer knows of it only. -/
theorem map_entry_readXPointeeAsString (index : ℕ) :
    (readXPointeeAsString t xs index).1.map XPointer.entry = xs.map XPointer.entry := by
  rw [readXPointeeAsString]
  cases hx : xs[index]? with
  | none => rfl
  | some x =>
    dsimp only
    cases hcopy : x.localCopy with
    | some s => rfl
    | none =>
      dsimp only
      split_ifs with hremote
      · rfl
      · cases readString t.access t.memory x.remote argMax with
        | none => rfl
        | some result =>
          dsimp only
          split_ifs
          · rfl
          · rfl
          · exact map_entry_set hx (entry_read hremote _)

theorem map_entry_writeXPointees (index : ℕ) (strings : List Bytes) :
    (writeXPointees xs index strings).1.map XPointer.entry =
      writeEntries (xs.map XPointer.entry) index strings := by
  induction strings generalizing xs index with
  | nil => rfl
  | cons s strings ih =>
    rw [writeXPointees, writeEntries, writeXPointeeAsString, List.length_map]
    split_ifs with hrange
    · rfl
    · dsimp only
      rw [ih, List.map_set]
      rfl

theorem map_entry_resizeArray {index : ℕ} {delta : ℤ} (ho : Orderly t xs (.resize index delta)) :
    (resizeArray t xs index delta).map XPointer.entry =
      resizeEntries (xs.map XPointer.entry) index delta := by
  rw [resizeArray, resizeEntries]
  by_cases hzero : delta = 0
  · subst hzero
    simp
  have hleft : ¬ (delta = 0 ∨ (xs.length : ℤ) + delta ≤ 0) := by
    rintro (h | h)
    · exact hzero h
    · have hsome := (ho (by omega)).1
      omega
  rw [if_neg hleft]
  dsimp only
  have htake : ∀ n, xs.take (min n xs.length) = xs.take n := fun n => by
    rw [← List.take_eq_take_min]
  have hdrop : xs.drop (min index xs.length) = xs.drop index := by
    by_cases hle : index ≤ xs.length
    · rw [Nat.min_eq_left hle]
    · rw [Nat.min_eq_right (by omega), List.drop_length, List.drop_eq_nil_of_le (by omega)]
  by_cases hpos : 0 < delta
  · rw [if_pos hpos, if_pos hpos.le, List.map_append, List.map_append, List.map_replicate, hdrop,
      htake, List.map_take, List.map_drop]
    rfl
  · rw [if_neg hpos, if_neg (by omega)]
    have hmoved : (xs.take (xs.length - (-delta).toNat) ++
        (List.range' (xs.length - (-delta).toNat)
          (xs.length - (xs.length - (-delta).toNat))).map
            (t.leftBehind xs (xs.length - (-delta).toNat))).drop (min index xs.length) =
          xs.drop index := by
      rw [← hdrop]
      apply List.ext_getElem?
      intro j
      rw [List.getElem?_drop, List.getElem?_drop]
      by_cases hkept : min index xs.length + j < xs.length - (-delta).toNat
      · rw [List.getElem?_append_left (by rw [List.length_take]; omega),
          List.getElem?_take_of_lt hkept]
      · rw [List.getElem?_append_right (by rw [List.length_take]; omega), List.length_take,
          Nat.min_eq_left (Nat.sub_le ..), List.getElem?_map]
        by_cases hlt : min index xs.length + j < xs.length
        · rw [List.getElem?_range' (by omega), Option.map_some, List.getElem?_eq_getElem hlt,
            Option.some.injEq]
          have hplace : xs.length - (-delta).toNat +
              (min index xs.length + j - (xs.length - (-delta).toNat)) =
                min index xs.length + j := by omega
          rw [Nat.one_mul, hplace]
          exact (ho (by omega)).2 _ _ (by omega) (by omega) (List.getElem?_eq_getElem hlt)
        · rw [List.getElem?_eq_none (by rw [List.length_range']; omega), Option.map_none,
            List.getElem?_eq_none (by omega)]
    rw [hmoved, List.map_append, List.map_take, List.map_drop, List.length_map]

theorem map_entry_applyEdit {edit : Edit} (ho : Orderly t xs edit) :
    (applyEdit t xs edit).map XPointer.entry = editEntry (xs.map XPointer.entry) edit := by
  cases edit with
  | read index => exact map_entry_readXPointeeAsString index
  | write index strings => exact map_entry_writeXPointees index strings
  | resize index delta => exact map_entry_resizeArray ho

/-- **Edits of the array are edits of the list.** -/
theorem map_entry_applyEdits {edits : List Edit}
    (ho : Run.AllSteps (applyEdit t) (Orderly t) xs edits) :
    (applyEdits t xs edits).map XPointer.entry =
      edits.foldl editEntry (xs.map XPointer.entry) := by
  induction edits generalizing xs with
  | nil => rfl
  | cons edit edits ih =>
    rw [Run.allSteps_cons] at ho
    rw [applyEdits, List.foldl_cons, List.foldl_cons, ← map_entry_applyEdit ho.1]
    exact ih ho.2

/-! ### Addresses are words -/

/-- The address of an entry is a word. -/
def Entry.FitsWord : Entry → Prop
  | .address a => a < 256 ^ wordSize
  | .string _ => True

theorem fitsWord_writeEntries {es : List Entry} (hes : ∀ e ∈ es, e.FitsWord) (index : ℕ)
    (strings : List Bytes) : ∀ e ∈ writeEntries es index strings, e.FitsWord := by
  induction strings generalizing es index with
  | nil => exact hes
  | cons s strings ih =>
    rw [writeEntries]
    split_ifs
    · exact hes
    · refine ih (fun e he => ?_) _
      cases List.mem_or_eq_of_mem_set he with
      | inl hmem => exact hes e hmem
      | inr heq =>
        rw [heq]
        trivial

theorem fitsWord_editEntry {es : List Entry} (hes : ∀ e ∈ es, e.FitsWord) (edit : Edit) :
    ∀ e ∈ editEntry es edit, e.FitsWord := by
  cases edit with
  | read index => exact hes
  | write index strings => exact fitsWord_writeEntries hes index strings
  | resize index delta =>
    intro e he
    rw [editEntry, resizeEntries] at he
    split_ifs at he
    · rw [List.mem_append, List.mem_append] at he
      obtain (he | he) | he := he
      · exact hes e (List.mem_of_mem_take he)
      · rw [(List.mem_replicate.1 he).2]
        exact Nat.pow_pos (by decide)
      · exact hes e (List.mem_of_mem_drop he)
    · rw [List.mem_append] at he
      cases he with
      | inl he => exact hes e (List.mem_of_mem_take he)
      | inr he => exact hes e (List.mem_of_mem_drop he)

theorem fitsWord_foldl {es : List Entry} (hes : ∀ e ∈ es, e.FitsWord) (edits : List Edit) :
    ∀ e ∈ edits.foldl editEntry es, e.FitsWord := by
  induction edits generalizing es with
  | nil => exact hes
  | cons edit edits ih => exact ih (fitsWord_editEntry hes edit)

/-! ### Fetching -/

/-- A fetched array is what stands in memory up to the NULL. -/
theorem fetchLoop_spec {addr fuel i : ℕ} (hfetch : fetchLoop m addr fuel i = some xs) :
    ∃ words : List ℕ, xs = words.map (fun w => ⟨w, none⟩) ∧
      (∀ j w, words[j]? = some w → w = wordAt m (addr + (i + j) * wordSize)) ∧
      ∃ front, words = front ++ [0] ∧ 0 ∉ front := by
  induction fuel generalizing i xs with
  | zero => cases hfetch
  | succ fuel ih =>
    rw [fetchLoop, peekWord] at hfetch
    by_cases hmapped : m.Mapped (addr + i * wordSize) wordSize
    · rw [if_pos hmapped] at hfetch
      dsimp only at hfetch
      by_cases hnull : wordAt m (addr + i * wordSize) ≠ 0
      · rw [if_pos hnull, Option.map_eq_some_iff] at hfetch
        obtain ⟨ys, hys, rfl⟩ := hfetch
        obtain ⟨words, rfl, hwords, front, rfl, hfront⟩ := ih hys
        refine ⟨wordAt m (addr + i * wordSize) :: (front ++ [0]), rfl, fun j w hw => ?_,
          wordAt m (addr + i * wordSize) :: front, rfl, ?_⟩
        · cases j with
          | zero =>
            rw [List.getElem?_cons_zero, Option.some.injEq] at hw
            exact hw.symm
          | succ j =>
            rw [List.getElem?_cons_succ] at hw
            have hsum : i + (j + 1) = i + 1 + j := by omega
            rw [hsum]
            exact hwords j w hw
        · rw [List.mem_cons, not_or]
          exact ⟨hnull.symm, hfront⟩
      · rw [if_neg hnull, Option.some.injEq] at hfetch
        rw [not_not] at hnull
        refine ⟨[0], ?_, fun j w hw => ?_, [], rfl, List.not_mem_nil⟩
        · rw [← hfetch, hnull]
          rfl
        · cases j with
          | zero =>
            rw [List.getElem?_cons_zero, Option.some.injEq] at hw
            rw [Nat.add_zero, hnull]
            exact hw.symm
          | succ j => cases hw
    · rw [if_neg hmapped] at hfetch
      cases hfetch

/-! ### Pushing -/

theorem writevData_success {access : Access} {dest : ℕ} {bufs : List (List UInt8)}
    (hok : (writevData access m dest bufs).2 = true) :
    (writevData access m dest bufs).1 = m.put dest bufs.flatten := by
  induction bufs generalizing m dest with
  | nil => rw [writevData, List.flatten_nil, put_nil]
  | cons buf bufs ih =>
    rw [writevData] at hok ⊢
    cases hwrite : writeData access m dest buf with
    | mk m' ok =>
      rw [hwrite] at hok
      cases ok with
      | false => cases hok
      | true =>
        have hput : (writeData access m dest buf).1 = m.put dest buf :=
          writeData_success (by rw [hwrite])
        rw [hwrite] at hput
        dsimp only at hok hput ⊢
        rw [ih hok, hput, put_append, List.flatten_cons]

theorem strings_cons_some {s : Bytes} (hx : x.replaced = some s) :
    strings (x :: xs) = (s ++ [0]) :: strings xs := by
  rw [strings, List.filterMap_cons_some hx, List.map_cons, strings]

theorem strings_cons_none (hx : x.replaced = none) : strings (x :: xs) = strings xs := by
  rw [strings, List.filterMap_cons_none hx, strings]

theorem length_pod (base off : ℕ) (xs : List XPointer) : (pod base off xs).length = xs.length := by
  induction xs generalizing off with
  | nil => rfl
  | cons x xs ih =>
    rw [pod]
    cases x.replaced with
    | none => rw [List.length_cons, List.length_cons, ih]
    | some s => rw [List.length_cons, List.length_cons, ih]

/-- Where the string of entry `i` stands behind the addresses. -/
def stringOffset (xs : List XPointer) (i : ℕ) : ℕ := (strings (xs.take i)).flatten.length

/-- **The two passes agree on every offset.** -/
theorem getElem?_pod {base off i : ℕ} (hx : xs[i]? = some x) :
    (pod base off xs)[i]? = some (match x.replaced with
      | some _ => base + (off + stringOffset xs i)
      | none => x.remote) := by
  induction xs generalizing off i with
  | nil => cases hx
  | cons y ys ih =>
    rw [pod]
    cases i with
    | zero =>
      rw [List.getElem?_cons_zero, Option.some.injEq] at hx
      subst hx
      have hzero : stringOffset (y :: ys) 0 = 0 := rfl
      rw [hzero]
      cases y.replaced with
      | none => rfl
      | some s => rfl
    | succ i =>
      rw [List.getElem?_cons_succ] at hx
      cases hy : y.replaced with
      | none =>
        have hoffset : stringOffset (y :: ys) (i + 1) = stringOffset ys i := by
          rw [stringOffset, List.take_succ_cons, strings_cons_none hy, stringOffset]
        dsimp only
        rw [List.getElem?_cons_succ, ih hx, hoffset]
      | some s =>
        have hoffset : stringOffset (y :: ys) (i + 1) = s.length + 1 + stringOffset ys i := by
          rw [stringOffset, List.take_succ_cons, strings_cons_some hy, List.flatten_cons,
            List.length_append, List.length_append, List.length_singleton, stringOffset]
        have hsum : ∀ k, off + (s.length + 1) + k = off + (s.length + 1 + k) := fun k =>
          Nat.add_assoc ..
        dsimp only
        rw [List.getElem?_cons_succ, ih hx, hoffset, hsum]

theorem strings_at {i : ℕ} {s : Bytes} (hx : xs[i]? = some x) (hs : x.replaced = some s) :
    stringOffset xs i + (s.length + 1) ≤ (strings xs).flatten.length ∧
      ((strings xs).flatten.drop (stringOffset xs i)).take (s.length + 1) = s ++ [0] := by
  have hlen : (s ++ [(0 : UInt8)]).length = s.length + 1 := by
    rw [List.length_append, List.length_singleton]
  obtain ⟨hlt, hget⟩ := List.getElem?_eq_some_iff.1 hx
  have hsplit : xs = xs.take i ++ x :: xs.drop (i + 1) := by
    rw [← hget, List.getElem_cons_drop, List.take_append_drop]
  have hflat : (strings xs).flatten =
      (strings (xs.take i)).flatten ++ ((s ++ [0]) ++ (strings (xs.drop (i + 1))).flatten) := by
    have hmap : strings xs = strings (xs.take i) ++ strings (x :: xs.drop (i + 1)) := by
      nth_rewrite 1 [hsplit]
      rw [strings, List.filterMap_append, List.map_append, strings, strings]
    rw [hmap, strings_cons_some hs, List.flatten_append, List.flatten_cons]
  rw [hflat, stringOffset, List.length_append, List.length_append, hlen, List.drop_left,
    ← hlen, List.take_left]
  exact ⟨by omega, rfl⟩

/-- A word that was put is there. -/
theorem wordAt_put {base i n : ℕ} {ns : List ℕ} {rest : List UInt8} (hn : ns[i]? = some n) :
    wordAt (m.put base ((ns.map (LittleEndian.encode wordSize)).flatten ++ rest))
      (base + i * wordSize) = n % 256 ^ wordSize := by
  obtain ⟨hroom, hencoded⟩ := @LittleEndian.flatten_encode_at wordSize ns i n hn
  rw [wordAt, values_put_inside (by rw [List.length_append]; omega),
    List.drop_append_of_le_length (by omega),
    List.take_append_of_le_length (by rw [List.length_drop]; omega), hencoded,
    LittleEndian.decode_encode]

/-- The new array ends below the old stack pointer. -/
theorem allocMem_add_le {regs : Regs} {size : ℕ} (hbase : allocMem regs size ≠ 0) :
    allocMem regs size + size ≤ regs.sp := by
  have hle : size ≤ if regs.sp = regs.originalSp then size + redZone else size := by
    split_ifs <;> omega
  rw [allocMem] at hbase ⊢
  generalize (if regs.sp = regs.originalSp then size + redZone else size) = room at hbase hle ⊢
  split_ifs at hbase ⊢ with hfull
  · exact absurd rfl hbase
  · omega

/-- What is written shows the list. -/
theorem shows_put {base : ℕ} (hfits : ∀ e ∈ xs.map XPointer.entry, e.FitsWord)
    (hbase : base + (wordSize * xs.length + (strings xs).flatten.length) ≤ 256 ^ wordSize) :
    Shows (m.put base (((pod base (wordSize * xs.length) xs).map
        (LittleEndian.encode wordSize)).flatten ++ (strings xs).flatten)) base
      (xs.map XPointer.entry) := by
  have hlength : ((pod base (wordSize * xs.length) xs).map
      (LittleEndian.encode wordSize)).flatten.length = wordSize * xs.length := by
    rw [LittleEndian.length_flatten_encode, length_pod]
  intro i e he
  rw [List.getElem?_map, Option.map_eq_some_iff] at he
  obtain ⟨x, hx, rfl⟩ := he
  have hread := @wordAt_put m base i _ _ (strings xs).flatten
    (@getElem?_pod xs x base (wordSize * xs.length) i hx)
  generalize ((pod base (wordSize * xs.length) xs).map
    (LittleEndian.encode wordSize)).flatten = addresses at hlength hread ⊢
  rw [hread]
  cases hs : x.replaced with
  | none =>
    have hentry : x.entry = .address x.remote := by
      rw [XPointer.entry, hs]
    have hlt := hfits _ (List.mem_map_of_mem (List.mem_of_getElem? hx))
    rw [hentry] at hlt ⊢
    exact Nat.mod_eq_of_lt hlt
  | some s =>
    have hentry : x.entry = .string s := by
      rw [XPointer.entry, hs]
    obtain ⟨hle, hat⟩ := strings_at hx hs
    have hlt : base + (wordSize * xs.length + stringOffset xs i) < 256 ^ wordSize := by omega
    have hdrop : (addresses ++ (strings xs).flatten).drop
        (wordSize * xs.length + stringOffset xs i) =
          (strings xs).flatten.drop (stringOffset xs i) := by
      rw [← hlength, List.drop_length_add_append]
    dsimp only
    rw [hentry, Nat.mod_eq_of_lt hlt, Denotes,
      values_put_inside (by rw [List.length_append, hlength]; omega), hdrop, hat]

theorem strings_eq_nil : strings xs = [] ↔ ¬ ∃ s, .string s ∈ xs.map XPointer.entry := by
  induction xs with
  | nil => exact iff_of_true rfl fun ⟨s, hs⟩ => List.not_mem_nil hs
  | cons x xs ih =>
    rw [List.map_cons]
    cases hx : x.replaced with
    | none =>
      have hentry : x.entry = .address x.remote := by
        rw [XPointer.entry, hx]
      have hmem : ∀ s, Entry.string s ∈ x.entry :: xs.map XPointer.entry ↔
          Entry.string s ∈ xs.map XPointer.entry := fun s => by
        rw [hentry, List.mem_cons, or_iff_right (fun h => by cases h)]
      rw [strings_cons_none hx, ih]
      simp only [hmem]
    | some s =>
      have hentry : x.entry = .string s := by
        rw [XPointer.entry, hx]
      rw [strings_cons_some hx]
      refine iff_of_false (List.cons_ne_nil _ _) (not_not_intro ⟨s, ?_⟩)
      rw [hentry]
      exact List.mem_cons_self

/-- What a successful push leaves. -/
theorem pushArray_cases {regs regs' : Regs} (hpush : pushArray t regs xs = .ok (m, regs')) :
    (strings xs = [] ∧ m = t.memory ∧ regs' = regs) ∨
      (strings xs ≠ [] ∧
        regs'.arg + (wordSize * xs.length + (strings xs).flatten.length) ≤ regs.sp ∧
        m = t.memory.put regs'.arg (((pod regs'.arg (wordSize * xs.length) xs).map
          (LittleEndian.encode wordSize)).flatten ++ (strings xs).flatten)) := by
  rw [pushArray] at hpush
  by_cases hnone : strings xs = []
  · rw [if_pos hnone, Except.ok.injEq, Prod.mk.injEq] at hpush
    exact .inl ⟨hnone, hpush.1.symm, hpush.2.symm⟩
  · rw [if_neg hnone] at hpush
    dsimp only at hpush
    by_cases hbase : allocMem regs (wordSize * xs.length + (strings xs).flatten.length) = 0
    · rw [if_pos hbase] at hpush
      cases hpush
    · rw [if_neg hbase] at hpush
      have hle := allocMem_add_le hbase
      generalize allocMem regs (wordSize * xs.length + (strings xs).flatten.length) = base
        at hpush hle
      cases hwrite : writevData t.access t.memory base
          (((pod base (wordSize * xs.length) xs).map (LittleEndian.encode wordSize)).flatten ::
            strings xs) with
      | mk m' ok =>
        rw [hwrite] at hpush
        cases ok with
        | false => cases hpush
        | true =>
          dsimp only at hpush
          rw [Except.ok.injEq, Prod.mk.injEq] at hpush
          have hput := writevData_success (congrArg Prod.snd hwrite)
          rw [hwrite, List.flatten_cons] at hput
          dsimp only at hput
          rw [← hpush.1, ← hpush.2]
          exact .inr ⟨hnone, hle, hput⟩

/-! ### The list up to its NULL -/

theorem upToNull_begins (es : List Entry) : upToNull es <+: es := by
  induction es with
  | nil => exact List.prefix_rfl
  | cons e es ih =>
    rw [upToNull]
    split_ifs
    · exact ⟨es, rfl⟩
    · rw [List.prefix_cons_inj]
      exact ih

/-- NULL stands at the end only. -/
theorem upToNull_null {es : List Entry} {i : ℕ} (hi : (upToNull es)[i]? = some (.address 0)) :
    (upToNull es).length = i + 1 := by
  induction es generalizing i with
  | nil => cases hi
  | cons e es ih =>
    rw [upToNull] at hi ⊢
    by_cases hnull : e = .address 0
    · rw [if_pos hnull] at hi ⊢
      cases i with
      | zero => rfl
      | succ i => cases hi
    · rw [if_neg hnull] at hi ⊢
      cases i with
      | zero =>
        rw [List.getElem?_cons_zero, Option.some.injEq] at hi
        exact absurd hi hnull
      | succ i =>
        rw [List.getElem?_cons_succ] at hi
        rw [List.length_cons, ih hi]

theorem Shows.of_begins {addr : ℕ} {es fs : List Entry} (hes : Shows m addr es)
    (hbegin : fs <+: es) : Shows m addr fs := by
  intro i e he
  obtain ⟨hlt, hget⟩ := List.getElem?_eq_some_iff.1 he
  apply hes
  rw [List.prefix_iff_getElem?.1 hbegin i hlt, hget]

/-- The addresses at a place that has been fetched are those that were fetched. -/
theorem shows_fetched_iff {addr fuel : ℕ} {es : List Entry}
    (hfetch : fetchArray m addr fuel = some xs) (hes : ¬ ∃ s, .string s ∈ es) :
    Shows m addr (upToNull es) ↔ upToNull es <+: xs.map XPointer.entry := by
  obtain ⟨words, rfl, hwords, front, hfront, hzero⟩ := fetchLoop_spec hfetch
  have hentries : (words.map fun w => (⟨w, none⟩ : XPointer)).map XPointer.entry =
      words.map Entry.address := by
    rw [List.map_map]
    refine List.map_congr_left fun w _ => ?_
    rw [Function.comp_apply, XPointer.entry, XPointer.replaced, ite_self]
  have hat : ∀ i w, words[i]? = some w → wordAt m (addr + i * wordSize) = w := fun i w hw => by
    have h := hwords i w hw
    rw [Nat.zero_add] at h
    exact h.symm
  rw [hentries]
  constructor
  · intro hshows
    -- Without a new string every entry is an address, so it is the word at its place.
    have hentry : ∀ i (hi : i < (upToNull es).length) w, words[i]? = some w →
        (upToNull es)[i] = .address w := by
      intro i hi w hw
      have hdenotes := hshows i _ (List.getElem?_eq_getElem hi)
      have hmem := (upToNull_begins es).subset (List.getElem_mem hi)
      cases he : (upToNull es)[i] with
      | string s =>
        rw [he] at hmem
        exact absurd ⟨s, hmem⟩ hes
      | address a =>
        rw [he, Denotes, hat i w hw] at hdenotes
        rw [hdenotes]
    have hlength : words.length = front.length + 1 := by
      rw [hfront, List.length_append, List.length_singleton]
    -- The list does not go on behind the NULL that was fetched.
    have hle : (upToNull es).length ≤ words.length := by
      by_contra hlt
      have hlast : words[front.length]? = some 0 := by
        rw [hfront, List.getElem?_append_right (Nat.le_refl _), Nat.sub_self]
        rfl
      have hnull := hentry front.length (by omega) 0 hlast
      have hend : (upToNull es).length = front.length + 1 := by
        apply upToNull_null
        rw [List.getElem?_eq_getElem (by omega), hnull]
      omega
    rw [List.prefix_iff_getElem?]
    intro i hi
    have hword : words[i]? = some words[i] := List.getElem?_eq_getElem (by omega)
    rw [List.getElem?_map, hword, Option.map_some, hentry i hi _ hword]
  · intro hbegin
    have hshows : Shows m addr (words.map Entry.address) := by
      intro i e he
      rw [List.getElem?_map, Option.map_eq_some_iff] at he
      obtain ⟨w, hw, rfl⟩ := he
      exact hat i w hw
    exact hshows.of_begins hbegin

theorem fitsWord_fetched {addr fuel : ℕ} (hfetch : fetchArray m addr fuel = some xs) :
    ∀ e ∈ xs.map XPointer.entry, e.FitsWord := by
  obtain ⟨words, rfl, hwords, -⟩ := fetchLoop_spec hfetch
  intro e he
  rw [List.map_map, List.mem_map] at he
  obtain ⟨w, hw, rfl⟩ := he
  rw [Function.comp_apply, XPointer.entry, XPointer.replaced, ite_self]
  obtain ⟨i, hi⟩ := List.mem_iff_getElem?.1 hw
  rw [hwords i w hi]
  have hlt := LittleEndian.decode_lt (m.values (addr + (0 + i) * wordSize) wordSize)
  rw [length_values] at hlt
  exact hlt

/-! ### The edited array -/

/-- **The pushed array.**  An array is fetched, edited and pushed, and no edit moves an entry
that was lost.  What the register points at then is the edited list up to its NULL, with the
old address of every entry that was not rewritten, if and only if the edits leave a new
string in the list, or the list still begins the one that was fetched. -/
theorem push_shows_iff {regs regs' : Regs} {fuel : ℕ} {edits : List Edit}
    (hsp : regs.sp < 256 ^ wordSize) (hfetch : fetchArray t.memory regs.arg fuel = some xs)
    (horderly : Run.AllSteps (applyEdit t) (Orderly t) xs edits)
    (hpush : pushArray t regs (applyEdits t xs edits) = .ok (m, regs')) :
    Shows m regs'.arg (upToNull (edits.foldl editEntry (xs.map XPointer.entry))) ↔
      (∃ s, .string s ∈ edits.foldl editEntry (xs.map XPointer.entry)) ∨
        upToNull (edits.foldl editEntry (xs.map XPointer.entry)) <+:
          xs.map XPointer.entry := by
  have hfits := fitsWord_foldl (fitsWord_fetched hfetch) edits
  rw [← map_entry_applyEdits horderly] at hfits ⊢
  generalize applyEdits t xs edits = ys at hpush hfits ⊢
  obtain ⟨hnone, rfl, rfl⟩ | ⟨hsome, hle, rfl⟩ := pushArray_cases hpush
  · rw [strings_eq_nil] at hnone
    rw [or_iff_right hnone]
    exact shows_fetched_iff hfetch hnone
  · rw [ne_eq, strings_eq_nil, not_not] at hsome
    rw [or_iff_left_of_imp fun _ => hsome]
    refine iff_of_true ?_ hsome
    exact (shows_put hfits (by omega)).of_begins (upToNull_begins _)

/-- A tracer over two pages: at 64 the addresses 512 and 528, and NULL. -/
def twoArguments : Tracer where
  access := ⟨true, true⟩
  memory :=
    { pageSize := 4096
      isMapped := (· < 2)
      value := fun a =>
        (([512, 528, 0].map (LittleEndian.encode wordSize)).flatten)[a - 64]?.getD 0
      pageSize_pos := Mem.pageSize_4096_pos }
  leftBehind := fun xs _ i => (xs[i]?).getD .zero

/-- The stack pointer at 2048, and the array at 64. -/
def twoArgumentsRegs : Regs := ⟨2048, 2048, 64⟩

theorem push_shows_inserted :
    ∃ m regs', pushArray twoArguments twoArgumentsRegs (applyEdits twoArguments
        [⟨512, none⟩, ⟨528, none⟩, ⟨0, none⟩] [.resize 1 1, .write 1 [[45, 99]]]) =
          .ok (m, regs') ∧
      Shows m regs'.arg [.address 512, .string [45, 99], .address 528, .address 0] := by
  have hfetch : fetchArray twoArguments.memory twoArgumentsRegs.arg 3 =
      some [⟨512, none⟩, ⟨528, none⟩, ⟨0, none⟩] := by decide +kernel
  have hpush : (pushArray twoArguments twoArgumentsRegs (applyEdits twoArguments
      [⟨512, none⟩, ⟨528, none⟩, ⟨0, none⟩]
        [.resize 1 1, .write 1 [[45, 99]]])).isOk = true := by decide +kernel
  cases hresult : pushArray twoArguments twoArgumentsRegs (applyEdits twoArguments
      [⟨512, none⟩, ⟨528, none⟩, ⟨0, none⟩] [.resize 1 1, .write 1 [[45, 99]]]) with
  | error e =>
    rw [hresult] at hpush
    cases hpush
  | ok result =>
    refine ⟨result.1, result.2, rfl, ?_⟩
    apply (push_shows_iff (by decide) hfetch ?_ hresult).2
    · exact .inl ⟨[45, 99], by decide⟩
    · rw [Run.allSteps_cons, Run.allSteps_cons]
      exact ⟨fun hneg => absurd hneg (by decide), trivial, trivial⟩

/-- The first argument is taken away, and the tracee keeps it. -/
theorem removed_entry_stays :
    fetchArray twoArguments.memory twoArgumentsRegs.arg 3 =
        some [⟨512, none⟩, ⟨528, none⟩, ⟨0, none⟩] ∧
      ([Edit.resize 1 (-1)]).foldl editEntry [.address 512, .address 528, .address 0] =
        [.address 528, .address 0] ∧
      pushArray twoArguments twoArgumentsRegs (applyEdits twoArguments
        [⟨512, none⟩, ⟨528, none⟩, ⟨0, none⟩] [.resize 1 (-1)]) =
          .ok (twoArguments.memory, twoArgumentsRegs) ∧
      ¬ Shows twoArguments.memory twoArgumentsRegs.arg [.address 528, .address 0] := by
  refine ⟨by decide +kernel, by decide +kernel, ?_, fun hshows => ?_⟩
  · rw [pushArray, if_pos (by decide +kernel)]
  · have hfirst := hshows 0 (.address 528) rfl
    revert hfirst
    rw [Denotes]
    decide +kernel

end NeoProot.Aoxp
