import Mathlib.Data.List.TakeWhile
import Mathlib.Algebra.Ring.Nat

/-!
# Records with their length in front

A record begins with a header that says how long it is, and the next record begins at the next
aligned place.

## Main definitions

* `RecordFormat` — where the length is, and the alignment.
* `pack`, `unpack` — the bytes of some records, and the records in some bytes.
* `walkUntil` — how far the records reach in front of a certain one.
* `unpack_pack`, `walkUntil_pack` — what is found in packed records.
-/

namespace NeoProot

/-- A format of records. -/
structure RecordFormat where
  /-- The size of a header. -/
  header : ℕ
  /-- What every record begins at a multiple of. -/
  align : ℕ
  /-- The length that a header says. -/
  lengthOf : List UInt8 → ℕ
  header_pos : 0 < header
  align_pos : 0 < align
  lengthOf_append : ∀ record rest, header ≤ record.length →
    lengthOf (record ++ rest) = lengthOf record

namespace RecordFormat

variable (f : RecordFormat)

/-- The next multiple of the alignment. -/
def aligned (n : ℕ) : ℕ := (n + (f.align - 1)) / f.align * f.align

/-- The bytes are a record, and nothing else. -/
def IsRecord (record : List UInt8) : Prop :=
  f.header ≤ record.length ∧ f.lengthOf record = record.length

/-- A whole record begins here. -/
def Begins (bytes : List UInt8) : Prop :=
  f.header ≤ bytes.length ∧ f.header ≤ f.lengthOf bytes ∧ f.lengthOf bytes ≤ bytes.length

instance (bytes : List UInt8) : Decidable (f.Begins bytes) := inferInstanceAs (Decidable (_ ∧ _))

/-- A record, and zeros up to the next. -/
def padded (record : List UInt8) : List UInt8 :=
  record ++ List.replicate (f.aligned record.length - record.length) 0

/-- The bytes of some records. -/
def pack (records : List (List UInt8)) : List UInt8 := records.flatMap f.padded

theorem le_aligned (n : ℕ) : n ≤ f.aligned n := by
  have hpos := f.align_pos
  have hmod := Nat.div_add_mod' (n + (f.align - 1)) f.align
  have hlt := Nat.mod_lt (n + (f.align - 1)) hpos
  rw [aligned]
  omega

theorem length_drop_lt {bytes : List UInt8} (h : f.Begins bytes) :
    (bytes.drop (f.aligned (f.lengthOf bytes))).length < bytes.length := by
  have hpos := f.header_pos
  have hle := f.le_aligned (f.lengthOf bytes)
  obtain ⟨hheader, hlength, -⟩ := h
  rw [List.length_drop]
  omega

/-- The records in some bytes, up to where no whole one begins. -/
def unpack (bytes : List UInt8) : List (List UInt8) :=
  if h : f.Begins bytes then
    bytes.take (f.lengthOf bytes) :: unpack (bytes.drop (f.aligned (f.lengthOf bytes)))
  else []
termination_by bytes.length
decreasing_by exact f.length_drop_lt h

/-- How far the records reach, up to the first one that `stop` tells from its header. -/
def walkUntil (stop : List UInt8 → Bool) (bytes : List UInt8) : ℕ :=
  if h : f.Begins bytes then
    if stop bytes then 0
    else
      f.aligned (f.lengthOf bytes) +
        walkUntil stop (bytes.drop (f.aligned (f.lengthOf bytes)))
  else 0
termination_by bytes.length
decreasing_by exact f.length_drop_lt h

variable {f}

@[simp] theorem length_padded (record : List UInt8) :
    (f.padded record).length = f.aligned record.length := by
  have hle := f.le_aligned record.length
  simp [padded]
  omega

@[simp] theorem pack_nil : f.pack [] = [] := rfl

@[simp] theorem pack_cons (record : List UInt8) (records : List (List UInt8)) :
    f.pack (record :: records) = f.padded record ++ f.pack records := rfl

@[simp] theorem pack_append (as bs : List (List UInt8)) :
    f.pack (as ++ bs) = f.pack as ++ f.pack bs := List.flatMap_append

theorem pack_singleton (record : List UInt8) : f.pack [record] = f.padded record := by
  simp

/-- Records at the front are found there. -/
theorem IsRecord.begins {record : List UInt8} (h : f.IsRecord record) (rest : List UInt8) :
    f.Begins (f.padded record ++ rest) ∧
      f.lengthOf (f.padded record ++ rest) = record.length := by
  have hlength : f.lengthOf (f.padded record ++ rest) = record.length := by
    rw [padded, List.append_assoc, f.lengthOf_append record _ h.1, h.2]
  have hle := f.le_aligned record.length
  refine ⟨⟨?_, ?_, ?_⟩, hlength⟩
  · have := h.1
    simp
    omega
  · rw [hlength]
    exact h.1
  · rw [hlength]
    simp
    omega

/-- What is found is a record. -/
theorem isRecord_of_mem_unpack {bytes record : List UInt8} (h : record ∈ f.unpack bytes) :
    f.IsRecord record := by
  induction bytes using unpack.induct f with
  | case1 bytes hbegins ih =>
    rw [unpack, dif_pos hbegins, List.mem_cons] at h
    cases h with
    | inr hrest => exact ih hrest
    | inl hfirst =>
      obtain ⟨-, hheader, hlength⟩ := hbegins
      have hself := f.lengthOf_append (bytes.take (f.lengthOf bytes))
        (bytes.drop (f.lengthOf bytes)) (by simp; omega)
      rw [List.take_append_drop] at hself
      rw [hfirst, IsRecord, ← hself]
      simp
      omega
  | case2 bytes hbegins =>
    rw [unpack, dif_neg hbegins] at h
    cases h

/-- **Packed records are found as they were.** -/
theorem unpack_pack_append {records : List (List UInt8)} (h : ∀ r ∈ records, f.IsRecord r)
    (rest : List UInt8) : f.unpack (f.pack records ++ rest) = records ++ f.unpack rest := by
  induction records with
  | nil => rfl
  | cons record records ih =>
    obtain ⟨hbegins, hlength⟩ :=
      (h record List.mem_cons_self).begins (f.pack records ++ rest)
    have htake : (f.padded record ++ (f.pack records ++ rest)).take record.length = record := by
      rw [padded, List.append_assoc, List.take_left' rfl]
    have hdrop : (f.padded record ++ (f.pack records ++ rest)).drop (f.aligned record.length) =
        f.pack records ++ rest := List.drop_left' (length_padded record)
    rw [pack_cons, List.append_assoc, unpack, dif_pos hbegins, hlength, htake, hdrop,
      ih fun r hr => h r (List.mem_cons_of_mem _ hr), List.cons_append]

theorem unpack_nil : f.unpack [] = [] := by
  rw [unpack, dif_neg]
  intro h
  exact absurd h.1 (Nat.not_le.2 f.header_pos)

theorem unpack_pack {records : List (List UInt8)} (h : ∀ r ∈ records, f.IsRecord r) :
    f.unpack (f.pack records) = records := by
  have happend := unpack_pack_append h []
  rwa [List.append_nil, unpack_nil, List.append_nil] at happend

/-- **How far packed records reach in front of the first that `stop` tells.** -/
theorem walkUntil_pack (stop : List UInt8 → Bool)
    (hstop : ∀ record rest, f.header ≤ record.length → stop (record ++ rest) = stop record)
    {records : List (List UInt8)} (h : ∀ r ∈ records, f.IsRecord r) :
    f.walkUntil stop (f.pack records) =
      (f.pack (records.takeWhile fun r => !stop r)).length := by
  induction records with
  | nil =>
    rw [pack_nil, walkUntil, dif_neg]
    · rfl
    · intro hbegins
      exact absurd hbegins.1 (Nat.not_le.2 f.header_pos)
  | cons record records ih =>
    have hrecord := h record List.mem_cons_self
    obtain ⟨hbegins, hlength⟩ := hrecord.begins (f.pack records)
    have hhead : stop (f.padded record ++ f.pack records) = stop record := by
      rw [padded, List.append_assoc, hstop record _ hrecord.1]
    have hdrop : (f.padded record ++ f.pack records).drop (f.aligned record.length) =
        f.pack records := List.drop_left' (length_padded record)
    rw [pack_cons, walkUntil, dif_pos hbegins, hhead, hlength, hdrop,
      ih fun r hr => h r (List.mem_cons_of_mem _ hr), List.takeWhile_cons]
    cases stop record with
    | true => simp
    | false => simp

end RecordFormat

end NeoProot
