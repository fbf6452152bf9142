import NeoProot.Syscall.Exit
import Mathlib.Data.List.Basic

/-!
# The objects of a System V IPC namespace

A namespace keeps its message queues, semaphore sets and shared memory segments
in three arrays.  A removed object leaves its slot behind, and the next object
that is made takes the first slot left behind, else a new one at the end.  The
id of an object is the index of its slot, counted from 1, with the generation of
the object above it.

## Main definitions

* `IpcObject` — what the three kinds of objects share.
* `findExisting`, `findUnused` — the search of the three `get` calls.
* `place` — the slot that a new object takes.
* `ipcObjectId`, `lookupIpcObject` — ids.
-/

namespace NeoProot.SysVIpc

variable {i idx : ℕ} {id : BitVec 32}

def ENOENT : ℤ := 2
def E2BIG : ℤ := 7
def EAGAIN : ℤ := 11
def EEXIST : ℤ := 17
def EINVAL : ℤ := 22
def EFBIG : ℤ := 27
def ENOSPC : ℤ := 28
def ERANGE : ℤ := 34
def ENOMSG : ℤ := 42
def EIDRM : ℤ := 43

def IPC_CREAT : UInt64 := 0x200
def IPC_EXCL : UInt64 := 0x400
def IPC_NOWAIT : UInt64 := 0x800

def IPC_RMID : UInt32 := 0
def IPC_STAT : UInt32 := 2
def SYSVIPC_IPC_INFO : UInt32 := 3
def SYSVIPC_IPC_64 : UInt32 := 0x100

/-- `flags & bit`. -/
def HasFlag (flags bit : UInt64) : Prop := flags &&& bit ≠ 0

instance (flags bit : UInt64) : Decidable (HasFlag flags bit) :=
  inferInstanceAs (Decidable (¬ _ = _))

/-- What `struct SysVIpcMsgQueue`, `struct SysVIpcSemaphore` and `struct SysVIpcSharedMem`
have in common, over the fields of their own. -/
structure IpcObject (α : Type) where
  key : ℤ
  generation : BitVec 16
  valid : Bool
  content : α
  deriving DecidableEq, Repr

variable {α : Type}

/-- `memset(object, 0, sizeof(*object))`. -/
def IpcObject.zeroed (zero : α) : IpcObject α := ⟨0, 0, false, zero⟩

/-- What is left of a removed object. -/
def IpcObject.removed (content : α) (o : IpcObject α) : IpcObject α :=
  { o with valid := false, generation := o.generation + 1, content := content }

/-! ### The search of the `get` calls -/

/-- The live object of a key; `IPC_PRIVATE` names none. -/
def findExisting (objects : List (IpcObject α)) (key : UInt64) : Option ℕ :=
  if key = 0 then none else objects.findIdx? fun o => o.valid && o.key = asInt key

/-- The first slot without a live object. -/
def findUnused (objects : List (IpcObject α)) : Option ℕ :=
  objects.findIdx? fun o => !o.valid

/-- The index of the slot that a new object takes. -/
def claimIndex (objects : List (IpcObject α)) : ℕ :=
  (findUnused objects).getD objects.length

/-- Write a new object into its slot. -/
def place (objects : List (IpcObject α)) (o : IpcObject α) : List (IpcObject α) :=
  match findUnused objects with
  | some i => objects.set i o
  | none => objects ++ [o]

/-! ### Ids -/

/-- `IPC_OBJECT_ID`. -/
def ipcObjectId (index : ℕ) (generation : BitVec 16) : BitVec 32 :=
  BitVec.ofNat 32 (index + 1) ||| (generation.signExtend 32 <<< 12)

/-- `LOOKUP_IPC_OBJECT`. -/
def lookupIpcObject (objects : List (IpcObject α)) (id : BitVec 32) : Option ℕ :=
  let index := (id &&& 0xFFF#32).toNat
  if index = 0 ∨ objects.length < index then none
  else match objects[index - 1]? with
    | some o =>
      if o.valid ∧ o.generation.toInt = ((id >>> 12 &&& 0xFFFF#32).toNat : ℤ) then
        some (index - 1)
      else none
    | none => none

/-! ### Live slots -/

/-- The slot holds a live object. -/
def ValidAt (objects : List (IpcObject α)) (i : ℕ) : Prop :=
  ∃ o, objects[i]? = some o ∧ o.valid = true

instance (objects : List (IpcObject α)) (i : ℕ) : Decidable (ValidAt objects i) :=
  match h : objects[i]? with
  | some o => decidable_of_iff (o.valid = true) ⟨fun hv => ⟨o, h, hv⟩, fun ⟨o', h', hv⟩ => by
      rw [h] at h'; cases h'; exact hv⟩
  | none => isFalse (by rintro ⟨o, h', -⟩; rw [h] at h'; cases h')

/-- Every live object has generation 0: nothing but its removal counts it up, and a slot is
zeroed before it is used again. -/
def FirstGeneration (objects : List (IpcObject α)) : Prop :=
  ∀ o ∈ objects, o.valid = true → o.generation = 0

variable {objects : List (IpcObject α)}

theorem ValidAt.lt (h : ValidAt objects i) : i < objects.length := by
  obtain ⟨o, ho, -⟩ := h
  exact (List.getElem?_eq_some_iff.1 ho).1

theorem findUnused_eq_some (h : findUnused objects = some i) :
    ∃ o, objects[i]? = some o ∧ o.valid = false := by
  rw [findUnused, List.findIdx?_eq_some_iff_getElem] at h
  obtain ⟨hi, hv, -⟩ := h
  exact ⟨objects[i], List.getElem?_eq_getElem hi, by simpa using hv⟩

/-- No live object is in the slot that a new one takes. -/
theorem not_validAt_claimIndex (objects : List (IpcObject α)) :
    ¬ ValidAt objects (claimIndex objects) := by
  rintro ⟨o, ho, hv⟩
  cases hf : findUnused objects with
  | some i =>
    obtain ⟨o', ho', hv'⟩ := findUnused_eq_some hf
    rw [claimIndex, hf, Option.getD_some, ho', Option.some.injEq] at ho
    rw [ho, hv] at hv'
    cases hv'
  | none =>
    rw [claimIndex, hf, Option.getD_none, List.getElem?_eq_none (Nat.le_refl _)] at ho
    cases ho

theorem getElem?_place (objects : List (IpcObject α)) (o : IpcObject α) (i : ℕ) :
    (place objects o)[i]? = if i = claimIndex objects then some o else objects[i]? := by
  cases hf : findUnused objects with
  | some j =>
    obtain ⟨o', ho', -⟩ := findUnused_eq_some hf
    have hj : j < objects.length := (List.getElem?_eq_some_iff.1 ho').1
    simp only [place, claimIndex, hf, Option.getD_some]
    by_cases hij : i = j
    · rw [hij, if_pos rfl, List.getElem?_set_self hj]
    · rw [if_neg hij, List.getElem?_set_ne (Ne.symm hij)]
  | none =>
    simp only [place, claimIndex, hf, Option.getD_none]
    by_cases hij : i = objects.length
    · rw [hij, if_pos rfl, List.getElem?_concat_length]
    · rw [if_neg hij]
      by_cases hlt : i < objects.length
      · exact List.getElem?_append_left hlt
      · have hlen : (objects ++ [o]).length ≤ i := by
          rw [List.length_append, List.length_singleton]; omega
        rw [List.getElem?_eq_none hlen, List.getElem?_eq_none (by omega)]

theorem mem_place {o p : IpcObject α} (h : p ∈ place objects o) : p = o ∨ p ∈ objects := by
  obtain ⟨i, hi⟩ := List.mem_iff_getElem?.1 h
  rw [getElem?_place] at hi
  split at hi
  · exact .inl (Option.some.inj hi).symm
  · exact .inr (List.mem_of_getElem? hi)

theorem validAt_place (objects : List (IpcObject α)) (o : IpcObject α) (i : ℕ) :
    ValidAt (place objects o) i ↔
      (i = claimIndex objects ∧ o.valid = true) ∨ ValidAt objects i := by
  rw [ValidAt, getElem?_place]
  by_cases hi : i = claimIndex objects
  · have hno : ¬ ValidAt objects i := hi ▸ not_validAt_claimIndex objects
    rw [if_pos hi]
    simp [hi, hi ▸ hno]
  · simp [hi, ValidAt]

/-- What holds of every object, and of what one of them is changed to. -/
theorem forall_mem_modify {P : IpcObject α → Prop}
    {f : IpcObject α → IpcObject α} (h : ∀ o ∈ objects, P o)
    (hf : ∀ o, objects[i]? = some o → P (f o)) : ∀ o ∈ objects.modify i f, P o := by
  intro o ho
  obtain ⟨j, hj⟩ := List.mem_iff_getElem?.1 ho
  rw [List.getElem?_modify] at hj
  cases hp : objects[j]? with
  | none => rw [hp] at hj; cases hj
  | some p =>
    rw [hp, Option.map_eq_map, Option.map_some, Option.some.injEq] at hj
    rw [← hj]
    split
    · rename_i hij
      exact hf p (hij ▸ hp)
    · exact h p (List.mem_of_getElem? hp)

theorem validAt_modify (objects : List (IpcObject α)) (i : ℕ) {f : IpcObject α → IpcObject α}
    (hf : ∀ o, (f o).valid = o.valid) (j : ℕ) :
    ValidAt (objects.modify i f) j ↔ ValidAt objects j := by
  by_cases hij : i = j
  · simp [ValidAt, hij, hf]
  · simp [ValidAt, hij]

theorem validAt_modify_removed (objects : List (IpcObject α)) (i : ℕ) (content : α) (j : ℕ) :
    ValidAt (objects.modify i (IpcObject.removed content)) j ↔ j ≠ i ∧ ValidAt objects j := by
  by_cases hij : i = j
  · simp [ValidAt, hij, IpcObject.removed]
  · simp [ValidAt, hij, Ne.symm hij]

theorem lookupIpcObject_eq_some (h : lookupIpcObject objects id = some i) :
    ∃ o, objects[i]? = some o ∧ o.valid = true ∧ (id &&& 0xFFF#32).toNat = i + 1 := by
  rw [lookupIpcObject] at h
  by_cases hindex : (id &&& 0xFFF#32).toNat = 0 ∨ objects.length < (id &&& 0xFFF#32).toNat
  · rw [if_pos hindex] at h; cases h
  · rw [if_neg hindex] at h
    cases ho : objects[(id &&& 0xFFF#32).toNat - 1]? with
    | none => rw [ho] at h; cases h
    | some o =>
      rw [ho] at h
      dsimp only at h
      split at h
      · rename_i hv
        rw [Option.some.injEq] at h
        refine ⟨o, ?_, hv.1, by omega⟩
        rw [← h]
        exact ho
      · cases h

theorem lookupIpcObject_validAt (h : lookupIpcObject objects id = some i) : ValidAt objects i := by
  obtain ⟨o, ho, hv, -⟩ := lookupIpcObject_eq_some h
  exact ⟨o, ho, hv⟩

/-! ### What the live objects hold -/

/-- What the live object in a slot holds. -/
def contentAt (objects : List (IpcObject α)) (i : ℕ) : Option α :=
  match objects[i]? with
  | some o => if o.valid then some o.content else none
  | none => none

theorem validAt_iff_contentAt (objects : List (IpcObject α)) (i : ℕ) :
    ValidAt objects i ↔ ∃ a, contentAt objects i = some a := by
  rw [ValidAt, contentAt]
  cases ho : objects[i]? with
  | none => simp
  | some o => by_cases hv : o.valid = true <;> simp [hv]

theorem contentAt_of_get {o : IpcObject α} (h : objects[i]? = some o)
    (hv : o.valid = true) : contentAt objects i = some o.content := by
  simp [contentAt, h, hv]

theorem contentAt_claimIndex (objects : List (IpcObject α)) :
    contentAt objects (claimIndex objects) = none := by
  have hno := not_validAt_claimIndex objects
  rw [validAt_iff_contentAt, not_exists] at hno
  exact Option.eq_none_iff_forall_ne_some.2 hno

theorem contentAt_place (objects : List (IpcObject α)) (o : IpcObject α) :
    contentAt (place objects o) =
      Function.update (contentAt objects) (claimIndex objects)
        (if o.valid then some o.content else none) := by
  funext i
  rw [contentAt, getElem?_place, Function.update_apply]
  by_cases hi : i = claimIndex objects
  · rw [if_pos hi, if_pos hi]
  · rw [if_neg hi, if_neg hi]
    rfl

/-- Change what an object holds. -/
def modifyContent (objects : List (IpcObject α)) (idx : ℕ) (f : α → α) : List (IpcObject α) :=
  objects.modify idx fun o => { o with content := f o.content }

theorem contentAt_modifyContent {a : α} (h : contentAt objects idx = some a) (f : α → α) :
    contentAt (modifyContent objects idx f) =
      Function.update (contentAt objects) idx (some (f a)) := by
  funext i
  rw [contentAt, modifyContent, List.getElem?_modify, Function.update_apply]
  by_cases hi : i = idx
  · rw [if_pos hi, hi]
    rw [contentAt] at h
    cases ho : objects[idx]? with
    | none => rw [ho] at h; cases h
    | some o =>
      rw [ho] at h
      dsimp only at h
      by_cases hv : o.valid = true
      · rw [if_pos hv, Option.some.injEq] at h
        simp [hv, h]
      · rw [if_neg hv] at h
        cases h
  · rw [if_neg hi, contentAt]
    cases objects[i]? with
    | none => rfl
    | some o => simp [Ne.symm hi]

/-- A change that leaves no live object in its slot. -/
theorem contentAt_modify_invalid (objects : List (IpcObject α)) (idx : ℕ)
    {f : IpcObject α → IpcObject α} (hf : ∀ o, (f o).valid = false) :
    contentAt (objects.modify idx f) = Function.update (contentAt objects) idx none := by
  funext i
  rw [contentAt, List.getElem?_modify, Function.update_apply]
  by_cases hi : i = idx
  · rw [if_pos hi, hi]
    cases objects[idx]? with
    | none => rfl
    | some o => simp [hf]
  · rw [if_neg hi, contentAt]
    cases objects[i]? with
    | none => rfl
    | some o => simp [Ne.symm hi]

theorem update_contentAt_self {a : α} (h : contentAt objects idx = some a) :
    Function.update (contentAt objects) idx (some a) = contentAt objects := by
  rw [← h, Function.update_eq_self]

theorem lookup_contentAt (h : lookupIpcObject objects id = some idx) :
    ∃ o, objects[idx]? = some o ∧ contentAt objects idx = some o.content := by
  obtain ⟨o, ho, hv, -⟩ := lookupIpcObject_eq_some h
  exact ⟨o, ho, contentAt_of_get ho hv⟩

end NeoProot.SysVIpc
