import NeoProot.Path.Dirfd
import NeoProot.Lib.Slots

/-!
# The entries of the directory descriptor cache

The cache holds at most one entry for each descriptor of each tracee, and what the
entry holds was recorded of the descriptor last.  So a loop that forgets the
descriptors of a tracee leaves none of its entries behind: `Sound.clear`.

## Main definitions

* `DirfdCache.All` — every entry in use has a property.
* `FdLedger.forgetWhere`, `FdLedger.inherit` — what the calls do to the record.
* `DirfdCache.Sound` — the cache agrees with the record.
-/

namespace NeoProot

namespace DirfdCache

/-- Every entry in use meets `P`. -/
def All (P : DirfdSlot → Prop) (c : DirfdCache) : Prop := ∀ s ∈ c.slots, 0 ≤ s.fd → P s

variable {P : DirfdSlot → Prop} {c : DirfdCache} {pid : ℕ} {fd : ℤ}

@[simp] theorem slots_slot (c : DirfdCache) (pid : ℕ) (fd : ℤ) :
    (c.slot pid fd).2.slots = c.slots := by
  simp only [slot]
  split
  · rfl
  · split
    · rfl
    · split <;> rfl

/-- The entry that `dirfd_cache_slot` finds is the descriptor's. -/
theorem slot_eq_some {index : ℕ} (h : (c.slot pid fd).1 = some index) :
    0 ≤ fd ∧ ∃ s, c.slots[index]? = some s ∧ s.pid = pid ∧ s.fd = fd := by
  have hholds : ∀ i, c.holds pid fd i = true →
      ∃ s, c.slots[i]? = some s ∧ s.pid = pid ∧ s.fd = fd := by
    intro i hi
    cases hs : c.slots[i]? with
    | none => simp [holds, hs] at hi
    | some s => simpa [holds, hs] using hi
  simp only [slot] at h
  split at h
  · simp at h
  · refine ⟨by omega, hholds index ?_⟩
    split at h
    · rename_i hlast
      dsimp only at h
      rw [h] at hlast
      simpa using hlast
    · split at h
      · simp at h
      · rename_i i hfound
        rw [← Option.some.inj h]
        exact List.find?_some hfound

theorem all_init : init.All P := by
  intro s hs hfd
  rw [List.eq_of_mem_replicate hs] at hfd
  simp [unused] at hfd

theorem All.set (h : c.All P) (index : ℕ) {new : DirfdSlot} (hnew : 0 ≤ new.fd → P new)
    (last : Option ℕ) (next : ℕ) : All P ⟨c.slots.set index new, last, next⟩ := by
  intro s hs hfd
  obtain hs | rfl := List.mem_or_eq_of_mem_set hs
  · exact h s hs hfd
  · exact hnew hfd

theorem All.slot (h : c.All P) (pid : ℕ) (fd : ℤ) : (c.slot pid fd).2.All P := by
  intro s hs
  rw [slots_slot] at hs
  exact h s hs

theorem All.forget (h : c.All P) (pid : ℕ) (fd : ℤ) : (c.forget pid fd).All P := by
  simp only [DirfdCache.forget]
  have hslot := h.slot pid fd
  generalize c.slot pid fd = found at hslot
  obtain ⟨index, c'⟩ := found
  cases index with
  | none => exact hslot
  | some index => exact hslot.set index (by simp [unused]) _ _

theorem all_foldl {f : DirfdCache → ℕ → DirfdCache} (hf : ∀ c index, c.All P → (f c index).All P)
    (h : c.All P) (l : List ℕ) : (l.foldl f c).All P := by
  induction l generalizing c with
  | nil => exact h
  | cons index l ih => exact ih (hf c index h)

theorem All.forgetWhere (h : c.All P) (pid : ℕ) (p : ℤ → Bool) : (c.forgetWhere pid p).All P := by
  refine all_foldl (fun c index hc => ?_) h _
  cases c.slots[index]? with
  | none => exact hc
  | some s =>
    dsimp only
    split
    · exact hc.forget pid s.fd
    · exact hc

theorem All.clear (h : c.All P) (pid : ℕ) : (c.clear pid).All P := h.forgetWhere pid _

theorem All.forgetRange (h : c.All P) (pid first last : ℕ) : (c.forgetRange pid first last).All P :=
  h.forgetWhere pid _

theorem All.remember (h : c.All P) {procPath guestDir : CStr}
    (hnew : P ⟨pid, fd, procPath.take (pathMax - 1), guestDir.take (pathMax - 1)⟩) :
    (c.remember pid fd procPath guestDir).All P := by
  simp only [DirfdCache.remember]
  split
  · exact h
  · have hslot := h.slot pid fd
    generalize c.slot pid fd = found at hslot
    obtain ⟨index, c'⟩ := found
    cases index with
    | none => exact hslot.set c'.next (fun _ => hnew) _ _
    | some index =>
      dsimp only
      split
      · exact hslot
      · exact hslot.set index (fun _ => hnew) _ _

theorem slot_init (pid : ℕ) (fd : ℤ) : (init.slot pid fd).1 = none := by
  cases h : (init.slot pid fd).1 with
  | none => rfl
  | some index =>
    obtain ⟨hfd, s, hs, -, hsame⟩ := slot_eq_some h
    rw [List.eq_of_mem_replicate (List.mem_of_getElem? hs)] at hsame
    simp only [unused] at hsame
    omega

end DirfdCache

/-! ### What is recorded of a descriptor -/

/-- What `remember_translated_dirfd` keeps of a descriptor. -/
structure DirNames where
  procPath : CStr
  guestDir : CStr
  deriving DecidableEq, Repr

/-- Its paths are in path buffers. -/
def DirNames.Fits (n : DirNames) : Prop := n.procPath.length < pathMax ∧ n.guestDir.length < pathMax

/-- What the lookups of `path.c` find of a descriptor. -/
def DirfdCache.recallNames (c : DirfdCache) (pid : ℕ) (fd : ℤ) : Option DirNames :=
  ((c.slot pid fd).1.bind fun slot => c.slots[slot]?).map fun s => ⟨s.procPath, s.guestDir⟩

namespace FdLedger

variable {ν : Type}

/-- A range of the descriptors of a tracee is forgotten. -/
def forgetWhere (m : ℕ × ℤ → Option ν) (pid : ℕ) (p : ℤ → Bool) (k : ℕ × ℤ) : Option ν :=
  if k.1 = pid ∧ p k.2 then none else m k

/-- A child starts with what is recorded of its parent. -/
def inherit (m : ℕ × ℤ → Option ν) (parentPid childPid : ℕ) (k : ℕ × ℤ) : Option ν :=
  if k.1 = childPid then m (parentPid, k.2) else m k

/-- The descriptors of a range. -/
def inRange (first last : ℕ) (fd : ℤ) : Bool := 0 ≤ fd && (first : ℤ) ≤ fd && fd ≤ last

variable {m : ℕ × ℤ → Option ν} {parentPid childPid : ℕ}

/-- The child's descriptors are the parent's. -/
theorem inherit_child (m : ℕ × ℤ → Option ν) (parentPid childPid : ℕ) (fd : ℤ) :
    inherit m parentPid childPid (childPid, fd) = inherit m parentPid childPid (parentPid, fd) := by
  simp only [inherit, if_true]
  split <;> rfl

theorem inherit_of_forgetWhere {k : ℕ × ℤ} {v : ν}
    (h : forgetWhere m childPid (fun _ => true) k = some v) :
    inherit m parentPid childPid k = forgetWhere m childPid (fun _ => true) k := by
  rw [forgetWhere] at h ⊢
  rw [inherit]
  by_cases hpid : k.1 = childPid
  · simp [hpid] at h
  · simp [hpid]

end FdLedger

/-! ### The table of directories -/

/-- What an entry holds. -/
def DirfdSlot.reading (s : DirfdSlot) : Option ((ℕ × ℤ) × DirNames) :=
  if 0 ≤ s.fd then some ((s.pid, s.fd), ⟨s.procPath, s.guestDir⟩) else none

theorem DirfdSlot.reading_eq_some {s : DirfdSlot} {k : ℕ × ℤ} {names : DirNames} :
    s.reading = some (k, names) ↔
      0 ≤ s.fd ∧ (s.pid, s.fd) = k ∧ (⟨s.procPath, s.guestDir⟩ : DirNames) = names := by
  rw [reading]
  split <;> simp [*]

namespace DirfdCache

/-- The entry is one that can be looked up, with absolute paths in path buffers. -/
def Proper (s : DirfdSlot) : Prop :=
  IsAbsolute s.procPath ∧ IsAbsolute s.guestDir ∧ s.procPath.length < pathMax ∧
    s.guestDir.length < pathMax

/-- The table holds what the ledger has, or less. -/
structure Sound (m : ℕ × ℤ → Option DirNames) (c : DirfdCache) : Prop where
  coherent : Slots.Coherent DirfdSlot.reading m c.slots
  proper : c.All Proper
  length : c.slots.length = dirfdCacheSize

variable {m m' : ℕ × ℤ → Option DirNames} {c c' : DirfdCache} {pid : ℕ} {fd : ℤ}

theorem slot_eq_none (h : (c.slot pid fd).1 = none) (hfd : 0 ≤ fd)
    (hlen : c.slots.length = dirfdCacheSize) {i : ℕ} {s : DirfdSlot} (hs : c.slots[i]? = some s) :
    ¬ (s.pid = pid ∧ s.fd = fd) := by
  intro hsame
  have hholds : c.holds pid fd i = true := by
    simp [holds, hs, hsame]
  obtain ⟨hlt, -⟩ := List.getElem?_eq_some_iff.1 hs
  simp only [slot] at h
  split at h
  · omega
  · split at h
    · rename_i hlast
      have hlast' : c.last = none := h
      rw [hlast'] at hlast
      simp at hlast
    · split at h
      · rename_i hnone
        have hnot := List.find?_eq_none.1 hnone i (List.mem_range.2 (hlen ▸ hlt))
        exact hnot hholds
      · simp at h

namespace Sound

theorem init (m : ℕ × ℤ → Option DirNames) : DirfdCache.init.Sound m := by
  have hfree : ∀ i k v, Slots.entry DirfdSlot.reading DirfdCache.init.slots i ≠ some (k, v) := by
    intro i k v hi
    obtain ⟨s, hs, hread⟩ := Slots.entry_eq_some.1 hi
    rw [List.eq_of_mem_replicate (List.mem_of_getElem? hs)] at hread
    exact absurd hread (by simp [DirfdSlot.reading, unused])
  exact ⟨⟨fun i _ k v _ hi => absurd hi (hfree i k v), fun i k v hi => absurd hi (hfree i k v)⟩,
    all_init, List.length_replicate⟩

/-- Entries go out of use, among them all whose keys change in the ledger. -/
theorem of_less (h : c.Sound m) (hless : Slots.Less DirfdSlot.reading c'.slots c.slots)
    (hall : c'.All Proper) (hlen : c'.slots.length = c.slots.length)
    (hkept : ∀ i k v, Slots.entry DirfdSlot.reading c'.slots i = some (k, v) → m' k = m k) :
    c'.Sound m' :=
  ⟨h.coherent.of_less hless hkept, hall, hlen.trans h.length⟩

theorem of_slots (h : c.Sound m) (hslots : c'.slots = c.slots) : c'.Sound m := by
  obtain ⟨hcoherent, hproper, hlength⟩ := h
  refine ⟨hslots ▸ hcoherent, fun s hs => hproper s (hslots ▸ hs), ?_⟩
  rw [hslots, hlength]

/-- The slot that is found is the only one of its descriptor. -/
theorem eq_of_slot (h : c.Sound m) {i j : ℕ} {v : DirNames} (hi : (c.slot pid fd).1 = some i)
    (hj : Slots.entry DirfdSlot.reading c.slots j = some ((pid, fd), v)) : j = i := by
  obtain ⟨hfd, s, hs, rfl, rfl⟩ := slot_eq_some hi
  exact h.coherent.distinct j i _ v ⟨s.procPath, s.guestDir⟩ hj
    (Slots.entry_eq_some.2 ⟨s, hs, DirfdSlot.reading_eq_some.2 ⟨hfd, rfl, rfl⟩⟩)

theorem entry_ne_of_slot_eq_none (h : c.Sound m) (hnone : (c.slot pid fd).1 = none) (i : ℕ)
    (v : DirNames) : Slots.entry DirfdSlot.reading c.slots i ≠ some ((pid, fd), v) := by
  intro hi
  obtain ⟨s, hs, hread⟩ := Slots.entry_eq_some.1 hi
  obtain ⟨hfd, hkey, -⟩ := DirfdSlot.reading_eq_some.1 hread
  obtain ⟨rfl, rfl⟩ := Prod.mk.inj hkey
  exact slot_eq_none hnone hfd h.length hs ⟨rfl, rfl⟩

/-- **A recall finds what the table holds under the descriptor.** -/
theorem recallNames_eq_lookup (h : c.Sound m) (pid : ℕ) (fd : ℤ) :
    c.recallNames pid fd = Slots.lookup DirfdSlot.reading c.slots (pid, fd) := by
  cases hi : (c.slot pid fd).1 with
  | none =>
    cases hl : Slots.lookup DirfdSlot.reading c.slots (pid, fd) with
    | none => rw [recallNames, hi, Option.bind_none, Option.map_none]
    | some v =>
      obtain ⟨i, hv⟩ := (Slots.lookup_eq_some h.coherent.distinct).1 hl
      exact absurd hv (h.entry_ne_of_slot_eq_none hi i v)
  | some i =>
    obtain ⟨hfd, s, hs, rfl, rfl⟩ := slot_eq_some hi
    have hentry : Slots.entry DirfdSlot.reading c.slots i =
        some ((s.pid, s.fd), ⟨s.procPath, s.guestDir⟩) :=
      Slots.entry_eq_some.2 ⟨s, hs, DirfdSlot.reading_eq_some.2 ⟨hfd, rfl, rfl⟩⟩
    rw [(Slots.lookup_eq_some h.coherent.distinct).2 ⟨i, hentry⟩, recallNames, hi, Option.bind_some, hs,
      Option.map_some]

end Sound

/-! #### Forgetting -/

theorem reading_unused : unused.reading = none := rfl

theorem less_forget (c : DirfdCache) (pid : ℕ) (fd : ℤ) :
    Slots.Less DirfdSlot.reading (c.forget pid fd).slots c.slots ∧
      (c.forget pid fd).slots.length = c.slots.length := by
  have hslots := slots_slot c pid fd
  simp only [forget]
  generalize c.slot pid fd = found at hslots
  obtain ⟨index, c'⟩ := found
  dsimp only at hslots
  cases index with
  | none =>
    dsimp only
    rw [hslots]
    exact ⟨Slots.Less.refl _, rfl⟩
  | some index =>
    dsimp only
    rw [hslots, List.length_set]
    exact ⟨Slots.Less.set _ _ reading_unused, rfl⟩

theorem Sound.entry_forget (h : c.Sound m) (pid : ℕ) (fd : ℤ) (i : ℕ) (v : DirNames) :
    Slots.entry DirfdSlot.reading (c.forget pid fd).slots i ≠ some ((pid, fd), v) := by
  intro hi
  have hold := (less_forget c pid fd).1 i _ v hi
  cases hslot : (c.slot pid fd).1 with
  | none => exact h.entry_ne_of_slot_eq_none hslot i v hold
  | some index =>
    obtain rfl := h.eq_of_slot hslot hold
    have hslots := slots_slot c pid fd
    simp only [forget] at hi
    generalize c.slot pid fd = found at hslot hslots hi
    obtain ⟨index, c'⟩ := found
    subst hslot
    obtain ⟨s, hs, hread⟩ := Slots.entry_eq_some.1 hi
    obtain ⟨hlt, -⟩ := List.getElem?_eq_some_iff.1 hs
    rw [List.length_set] at hlt
    rw [List.getElem?_set_self hlt, Option.some.injEq] at hs
    rw [← hs, reading_unused] at hread
    exact absurd hread (by simp)

theorem Sound.forget (h : c.Sound m) (pid : ℕ) (fd : ℤ) :
    (c.forget pid fd).Sound (Function.update m (pid, fd) none) := by
  obtain ⟨hless, hlen⟩ := less_forget c pid fd
  refine h.of_less hless (h.proper.forget pid fd) hlen fun i k v hi => ?_
  apply Function.update_of_ne
  rintro rfl
  exact h.entry_forget pid fd i v hi

/-- One round of the loops that forget. -/
def forgetRound (pid : ℕ) (p : ℤ → Bool) (c : DirfdCache) (index : ℕ) : DirfdCache :=
  match c.slots[index]? with
  | some slot => if slot.pid = pid ∧ p slot.fd then c.forget pid slot.fd else c
  | none => c

theorem forgetWhere_eq_foldl (c : DirfdCache) (pid : ℕ) (p : ℤ → Bool) :
    c.forgetWhere pid p = (List.range dirfdCacheSize).foldl (forgetRound pid p) c := by
  rw [forgetWhere]
  congr

/-- The entry is in use, and one that the loop has to forget. -/
def Meant (pid : ℕ) (p : ℤ → Bool) (c : DirfdCache) (i : ℕ) : Prop :=
  ∃ fd v, p fd ∧ Slots.entry DirfdSlot.reading c.slots i = some ((pid, fd), v)

/-- A round frees at most one slot, and its own if that is meant. -/
theorem Sound.forgetRound (h : c.Sound m) (pid : ℕ) (p : ℤ → Bool) (index : ℕ) :
    (c.forgetRound pid p index).Sound m ∧
      Slots.Less DirfdSlot.reading (c.forgetRound pid p index).slots c.slots ∧
      ¬ (c.forgetRound pid p index).Meant pid p index := by
  cases hs : c.slots[index]? with
  | none =>
    have hround : c.forgetRound pid p index = c := by
      simp only [DirfdCache.forgetRound, hs]
    rw [hround]
    refine ⟨h, Slots.Less.refl _, ?_⟩
    rintro ⟨fd, v, -, hentry⟩
    rw [Slots.entry, hs, Option.bind_none] at hentry
    exact absurd hentry (by simp)
  | some s =>
    have hread : ∀ fd v, Slots.entry DirfdSlot.reading c.slots index = some ((pid, fd), v) →
        s.pid = pid ∧ s.fd = fd := by
      intro fd v hentry
      obtain ⟨s', hs', hread⟩ := Slots.entry_eq_some.1 hentry
      rw [hs, Option.some.injEq] at hs'
      subst hs'
      obtain ⟨-, hkey, -⟩ := DirfdSlot.reading_eq_some.1 hread
      exact Prod.mk.inj hkey
    by_cases hmeant : s.pid = pid ∧ p s.fd
    · have hround : c.forgetRound pid p index = c.forget pid s.fd := by
        simp only [DirfdCache.forgetRound, hs, if_pos hmeant]
      obtain ⟨hless, hlen⟩ := less_forget c pid s.fd
      rw [hround]
      refine ⟨h.of_less hless (h.proper.forget _ _) hlen fun _ _ _ _ => rfl, hless, ?_⟩
      rintro ⟨fd, v, -, hentry⟩
      obtain ⟨-, rfl⟩ := hread fd v (hless index _ v hentry)
      exact h.entry_forget pid s.fd index v hentry
    · have hround : c.forgetRound pid p index = c := by
        simp only [DirfdCache.forgetRound, hs, if_neg hmeant]
      rw [hround]
      refine ⟨h, Slots.Less.refl _, ?_⟩
      rintro ⟨fd, v, hp, hentry⟩
      obtain ⟨hpid, hfd⟩ := hread fd v hentry
      exact hmeant ⟨hpid, hfd ▸ hp⟩

theorem Sound.foldl_forgetRound (h : c.Sound m) (pid : ℕ) (p : ℤ → Bool) (l : List ℕ) :
    (l.foldl (DirfdCache.forgetRound pid p) c).Sound m ∧
      Slots.Less DirfdSlot.reading (l.foldl (DirfdCache.forgetRound pid p) c).slots c.slots ∧
      ∀ index ∈ l, ¬ (l.foldl (DirfdCache.forgetRound pid p) c).Meant pid p index := by
  induction l generalizing c with
  | nil => exact ⟨h, Slots.Less.refl _, by simp⟩
  | cons index l ih =>
    obtain ⟨hsound, hless, hgone⟩ := h.forgetRound pid p index
    obtain ⟨hsound', hless', hgone'⟩ := ih hsound
    refine ⟨hsound', hless'.trans hless, List.forall_mem_cons.2 ⟨?_, hgone'⟩⟩
    -- What a later round leaves in use was in use before it.
    rintro ⟨fd, v, hp, hentry⟩
    exact hgone ⟨fd, v, hp, hless' index _ v hentry⟩

/-- The loops that forget leave no entry that is meant. -/
theorem Sound.forgetWhere (h : c.Sound m) (pid : ℕ) (p : ℤ → Bool) :
    (c.forgetWhere pid p).Sound (FdLedger.forgetWhere m pid p) := by
  obtain ⟨hsound, -, hgone⟩ := h.foldl_forgetRound pid p (List.range dirfdCacheSize)
  rw [← forgetWhere_eq_foldl] at hsound hgone
  generalize c.forgetWhere pid p = c' at hsound hgone
  refine hsound.of_less (Slots.Less.refl _) hsound.proper rfl fun i k v hentry => ?_
  obtain ⟨s, hs, -⟩ := Slots.entry_eq_some.1 hentry
  obtain ⟨hlt, -⟩ := List.getElem?_eq_some_iff.1 hs
  rw [FdLedger.forgetWhere, if_neg]
  rintro ⟨hpid, hp⟩
  refine hgone i (List.mem_range.2 (hsound.length ▸ hlt)) ⟨k.2, v, hp, ?_⟩
  rw [← hpid]
  exact hentry

theorem Sound.forgetRange (h : c.Sound m) (pid first last : ℕ) :
    (c.forgetRange pid first last).Sound
      (FdLedger.forgetWhere m pid (FdLedger.inRange first last)) := by
  rw [DirfdCache.forgetRange]
  exact h.forgetWhere pid (FdLedger.inRange first last)

theorem Sound.clear (h : c.Sound m) (pid : ℕ) :
    (c.clear pid).Sound (FdLedger.forgetWhere m pid fun _ => true) := by
  rw [DirfdCache.clear]
  exact h.forgetWhere pid _

/-- Of the tracee whose descriptors are forgotten no entry is left. -/
theorem Sound.all_clear (h : c.Sound m) (pid : ℕ) : (c.clear pid).All fun s => s.pid ≠ pid := by
  intro s hs hfd hpid
  obtain ⟨i, hi⟩ := List.mem_iff_getElem?.1 hs
  have hm := (h.clear pid).coherent.within i (s.pid, s.fd) ⟨s.procPath, s.guestDir⟩
    (Slots.entry_eq_some.2 ⟨s, hi, DirfdSlot.reading_eq_some.2 ⟨hfd, rfl, rfl⟩⟩)
  rw [FdLedger.forgetWhere, if_pos ⟨hpid, rfl⟩] at hm
  exact absurd hm (by simp)

/-! #### Recording -/

/-- **A descriptor is recorded.** -/
theorem Sound.remember (h : c.Sound m) (pid : ℕ) {fd : ℤ} (names : DirNames) (hfd : 0 ≤ fd)
    (hproc : IsAbsolute names.procPath) (hguest : IsAbsolute names.guestDir) (hfits : names.Fits) :
    (c.remember pid fd names.procPath names.guestDir).Sound
      (Function.update m (pid, fd) (some names)) := by
  have hproper : (c.remember pid fd names.procPath names.guestDir).All Proper := by
    refine h.proper.remember ?_
    obtain ⟨hprocLt, hguestLt⟩ := hfits
    rw [List.take_of_length_le (by omega), List.take_of_length_le (by omega)]
    exact ⟨hproc, hguest, hprocLt, hguestLt⟩
  have hslots := slots_slot c pid fd
  have hsome := fun i => @Sound.eq_of_slot m c pid fd h i
  have hnone := @Sound.entry_ne_of_slot_eq_none m c pid fd h
  have hfound := @slot_eq_some c pid fd
  have hnew : (⟨pid, fd, names.procPath, names.guestDir⟩ : DirfdSlot).reading =
      some ((pid, fd), names) := DirfdSlot.reading_eq_some.2 ⟨hfd, rfl, rfl⟩
  simp only [DirfdCache.remember, hproc, hguest, not_true_eq_false, or_false, not_lt.2 hfd,
    if_false] at hproper ⊢
  obtain ⟨hprocLt, hguestLt⟩ := hfits
  rw [List.take_of_length_le (by omega), List.take_of_length_le (by omega)] at hproper ⊢
  generalize c.slot pid fd = found at hslots hsome hnone hfound hproper
  obtain ⟨index, c'⟩ := found
  dsimp only at hslots hsome hnone hfound hproper ⊢
  cases index with
  | none =>
    dsimp only at hproper ⊢
    rw [hslots] at hproper ⊢
    refine ⟨h.coherent.put hnew fun j v hj => absurd hj (hnone rfl j v), hproper, ?_⟩
    rw [List.length_set, h.length]
  | some index =>
    dsimp only at hproper ⊢
    rw [hslots] at hproper ⊢
    obtain ⟨-, s, hs, hpid, hsame⟩ := hfound rfl
    by_cases hequal : (c.slots[index]?.any fun s =>
        s.procPath = names.procPath && s.guestDir = names.guestDir) = true
    · -- The entry holds these names, and so does the ledger.
      rw [if_pos hequal]
      rw [hs, Option.any_some, Bool.and_eq_true, decide_eq_true_eq, decide_eq_true_eq] at hequal
      have hentry : Slots.entry DirfdSlot.reading c.slots index = some ((pid, fd), names) := by
        refine Slots.entry_eq_some.2 ⟨s, hs, DirfdSlot.reading_eq_some.2 ⟨hsame ▸ hfd, ?_, ?_⟩⟩
        · rw [hpid, hsame]
        · rw [hequal.1, hequal.2]
      rw [← h.coherent.within index _ names hentry, Function.update_eq_self]
      exact h.of_slots hslots
    · rw [if_neg hequal] at hproper ⊢
      refine ⟨h.coherent.put hnew fun j v hj => hsome index rfl hj, hproper, ?_⟩
      rw [List.length_set, h.length]

theorem Sound.copy (h : c.Sound m) (pid : ℕ) (sourceFd targetFd : ℤ) :
    (c.copy pid sourceFd targetFd).Sound
      (Function.update m (pid, targetFd) (m (pid, sourceFd))) := by
  have hslots := slots_slot c pid sourceFd
  have hfound := @slot_eq_some c pid sourceFd
  simp only [DirfdCache.copy]
  generalize c.slot pid sourceFd = found at hslots hfound
  obtain ⟨index, c'⟩ := found
  dsimp only at hslots hfound
  have hc' : c'.Sound m := h.of_slots hslots
  cases index with
  | none =>
    -- The source is not in the table, and the target is no longer.
    obtain ⟨hless, hlen⟩ := less_forget c' pid targetFd
    refine hc'.of_less hless (hc'.proper.forget pid targetFd) hlen fun i k v hi => ?_
    apply Function.update_of_ne
    rintro rfl
    exact hc'.entry_forget pid targetFd i v hi
  | some index =>
    obtain ⟨hfd, s, hs, rfl, rfl⟩ := hfound rfl
    dsimp only
    rw [hslots, hs]
    have hproper := h.proper s (List.mem_of_getElem? hs) hfd
    have hm := h.coherent.within index _ ⟨s.procPath, s.guestDir⟩
      (Slots.entry_eq_some.2 ⟨s, hs, DirfdSlot.reading_eq_some.2 ⟨hfd, rfl, rfl⟩⟩)
    dsimp only
    rw [hm]
    by_cases htarget : 0 ≤ targetFd
    · exact hc'.remember s.pid ⟨s.procPath, s.guestDir⟩ htarget hproper.1 hproper.2.1 hproper.2.2
    · rw [DirfdCache.remember, if_pos (.inl (by omega))]
      refine hc'.of_less (Slots.Less.refl _) hc'.proper rfl fun i k v hi => ?_
      apply Function.update_of_ne
      rintro rfl
      obtain ⟨s', -, hread⟩ := Slots.entry_eq_some.1 hi
      obtain ⟨hfd', hkey, -⟩ := DirfdSlot.reading_eq_some.1 hread
      rw [(Prod.mk.inj hkey).2] at hfd'
      exact htarget hfd'

/-- One round of `inherit_translated_dirfds`. -/
def inheritRound (parentPid childPid : ℕ) (c : DirfdCache) (index : ℕ) : DirfdCache :=
  match c.slots[index]? with
  | some s => if s.pid = parentPid then c.remember childPid s.fd s.procPath s.guestDir else c
  | none => c

theorem inherit_eq_foldl (c : DirfdCache) (parentPid childPid : ℕ) :
    c.inherit parentPid childPid =
      (List.range dirfdCacheSize).foldl (inheritRound parentPid childPid) (c.clear childPid) := by
  rw [inherit]
  congr

theorem Sound.inherit (h : c.Sound m) (parentPid childPid : ℕ) :
    (c.inherit parentPid childPid).Sound (FdLedger.inherit m parentPid childPid) := by
  -- The child's descriptors are the parent's in the ledger, so every round records what the
  -- ledger has, whether the slot is one of before the loop or one that it wrote.
  have hchild := FdLedger.inherit_child m parentPid childPid
  have hclear : (c.clear childPid).Sound (FdLedger.inherit m parentPid childPid) := by
    have hsound := h.clear childPid
    refine hsound.of_less (Slots.Less.refl _) hsound.proper rfl fun i k v hi => ?_
    exact FdLedger.inherit_of_forgetWhere (hsound.coherent.within i k v hi)
  rw [inherit_eq_foldl]
  refine List.foldlRecOn (motive := DirfdCache.Sound _) _ _ hclear fun c hc index _ => ?_
  rw [inheritRound]
  cases hs : c.slots[index]? with
  | none => exact hc
  | some s =>
    dsimp only
    split
    · rename_i hpid
      by_cases hfd : 0 ≤ s.fd
      · have hproper := hc.proper s (List.mem_of_getElem? hs) hfd
        have hm := hc.coherent.within index _ ⟨s.procPath, s.guestDir⟩
          (Slots.entry_eq_some.2 ⟨s, hs, DirfdSlot.reading_eq_some.2 ⟨hfd, rfl, rfl⟩⟩)
        have hsound := hc.remember childPid ⟨s.procPath, s.guestDir⟩ hfd hproper.1
          hproper.2.1 hproper.2.2
        rw [hpid, ← hchild s.fd] at hm
        rwa [← hm, Function.update_eq_self] at hsound
      · rw [DirfdCache.remember, if_pos (.inl (by omega))]
        exact hc
    · exact hc

end DirfdCache

end NeoProot
