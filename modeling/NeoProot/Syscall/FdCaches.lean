import NeoProot.Path.DirfdEntries
import NeoProot.Syscall.Exit

/-!
# The names of descriptors over a run

The tracer keeps two tables of descriptors: the paths they were opened with, and the guest
names of the directories they lead to.  Both forget an entry when they need its slot.
`recall_coherent` says that nothing else goes wrong with them: what is recalled of a
descriptor is what was last recorded of it.

## Main definitions

* `FdCaches` — the two tables, and the calls that change both.
* `FdLedger` — what was last recorded of every descriptor.
* `ProcFdPaths.Sound`, `DirfdCache.Sound` — the tables agree with the ledger.
-/

namespace NeoProot

/-! ### The tables -/

namespace ProcFdPaths

/-- `proc_fd_path_cache` at the start of the tracer. -/
def init : ProcFdPaths :=
  ⟨List.replicate procFdPathCacheSize ⟨0, 0, [], [], none, false, false, 0⟩, 0⟩

/-- An entry that is no longer in use. -/
def forgotten (s : ProcFdPath) : ProcFdPath :=
  { s with pid := 0, fd := -1, path := [], binding := none, hasAttributes := false }

/-- `forget_proc_fd_paths_range`, up to the descriptor cache. -/
def forgetRange (c : ProcFdPaths) (pid first last : ℕ) : ProcFdPaths :=
  { c with
    slots := c.slots.map fun s =>
      if s.pid = pid ∧ 0 ≤ s.fd ∧ (first : ℤ) ≤ s.fd ∧ s.fd ≤ (last : ℤ) then forgotten s else s }

/-- `clear_proc_fd_paths`, up to the descriptor cache. -/
def clear (c : ProcFdPaths) (pid : ℕ) : ProcFdPaths :=
  { c with slots := c.slots.map fun s => if s.pid = pid then forgotten s else s }

/-- `inherit_proc_fd_paths`, up to the descriptor cache. -/
def inherit (c : ProcFdPaths) (parentPid childPid : ℕ) : ProcFdPaths :=
  (List.range procFdPathCacheSize).foldl (fun c index =>
    match c.slots[index]? with
    | some s => if s.pid = parentPid then c.remember { s with pid := childPid } else c
    | none => c) (c.clear childPid)

/-- `recall_proc_fd_binding`, for what the link of the descriptor reads. -/
def recallBinding (c : ProcFdPaths) (pid : ℕ) (fd : ℤ) (link : Except Errno CStr) :
    Option Binding :=
  match link with
  | .error _ => none
  | .ok hostPath =>
    (c.slots.find? fun s => s.pid = pid ∧ s.fd = fd ∧ s.hostPath = hostPath).bind (·.binding)

/-- `recall_proc_fd_mount_attributes`. -/
def recallMountAttributes (c : ProcFdPaths) (pid : ℕ) (fd : ℤ) : Option (Bool × UInt64) :=
  (c.slots.find? fun s => s.pid = pid ∧ s.fd = fd ∧ s.hasAttributes).map
    fun s => (s.readonly, s.mountFlags)

end ProcFdPaths

/-- What `remember_proc_fd_path` keeps of a descriptor. -/
structure FdRecord where
  path : CStr
  hostPath : CStr
  binding : Option Binding
  hasAttributes : Bool
  readonly : Bool
  mountFlags : UInt64
  deriving DecidableEq, Repr

namespace FdRecord

/-- Its paths are in path buffers. -/
def Fits (r : FdRecord) : Prop := r.path.length < pathMax ∧ r.hostPath.length < pathMax

/-- The entry of a descriptor. -/
def slot (r : FdRecord) (pid : ℕ) (fd : ℤ) : ProcFdPath :=
  ⟨pid, fd, r.path, r.hostPath, r.binding, r.hasAttributes, r.readonly, r.mountFlags⟩

end FdRecord

/-- The two tables. -/
structure FdCaches where
  paths : ProcFdPaths
  dirfds : DirfdCache
  deriving DecidableEq, Repr

namespace FdCaches

/-- The tables at the start of the tracer. -/
def init : FdCaches := ⟨.init, .init⟩

/-- `forget_proc_fd_path`. -/
def forget (c : FdCaches) (pid : ℕ) (fd : ℤ) : FdCaches :=
  ⟨c.paths.forget pid fd, c.dirfds.forget pid fd⟩

/-- `forget_proc_fd_paths_range`. -/
def forgetRange (c : FdCaches) (pid first last : ℕ) : FdCaches :=
  ⟨c.paths.forgetRange pid first last, c.dirfds.forgetRange pid first last⟩

/-- `clear_proc_fd_paths`. -/
def clear (c : FdCaches) (pid : ℕ) : FdCaches := ⟨c.paths.clear pid, c.dirfds.clear pid⟩

/-- `inherit_proc_fd_paths`. -/
def inherit (c : FdCaches) (parentPid childPid : ℕ) : FdCaches :=
  ⟨c.paths.inherit parentPid childPid, c.dirfds.inherit parentPid childPid⟩

/-- `copy_proc_fd_path`. -/
def copy (c : FdCaches) (pid : ℕ) (sourceFd targetFd : ℤ) : FdCaches :=
  match c.paths.recallPath pid sourceFd with
  | none =>
    ⟨c.paths.forget pid targetFd, (c.dirfds.forget pid targetFd).copy pid sourceFd targetFd⟩
  | some path =>
    ⟨match c.paths.slots.find? fun s => s.pid = pid ∧ s.fd = sourceFd with
      | none => c.paths
      | some s => c.paths.remember { s with fd := targetFd, path := path },
      c.dirfds.copy pid sourceFd targetFd⟩

end FdCaches

/-! ### The calls, and what they record -/

/-- The calls that change the tables. -/
inductive FdOp
  /-- `remember_proc_fd_path`. -/
  | remember (pid : ℕ) (fd : ℤ) (record : {r : FdRecord // r.Fits})
  /-- `remember_translated_dirfd`. -/
  | rememberDirfd (pid : ℕ) (fd : ℤ) (names : {n : DirNames // n.Fits})
  | forget (pid : ℕ) (fd : ℤ)
  /-- `forget_translated_dirfd` on its own. -/
  | forgetDirfd (pid : ℕ) (fd : ℤ)
  | forgetRange (pid first last : ℕ)
  | clear (pid : ℕ)
  /-- `clear_translated_dirfds` on its own. -/
  | clearDirfds (pid : ℕ)
  | copy (pid : ℕ) (sourceFd targetFd : ℤ)
  | inherit (parentPid childPid : ℕ)

/-- What a call makes of the tables. -/
def FdCaches.step (c : FdCaches) : FdOp → FdCaches
  | .remember pid fd record => { c with paths := c.paths.remember (record.1.slot pid fd) }
  | .rememberDirfd pid fd names =>
    { c with dirfds := c.dirfds.remember pid fd names.1.procPath names.1.guestDir }
  | .forget pid fd => c.forget pid fd
  | .forgetDirfd pid fd => { c with dirfds := c.dirfds.forget pid fd }
  | .forgetRange pid first last => c.forgetRange pid first last
  | .clear pid => c.clear pid
  | .clearDirfds pid => { c with dirfds := c.dirfds.clear pid }
  | .copy pid sourceFd targetFd => c.copy pid sourceFd targetFd
  | .inherit parentPid childPid => c.inherit parentPid childPid

/-- What was last recorded of every descriptor of every tracee. -/
structure FdLedger where
  paths : ℕ × ℤ → Option FdRecord
  dirfds : ℕ × ℤ → Option DirNames

namespace FdLedger

/-- Nothing is recorded. -/
def empty : FdLedger := ⟨fun _ => none, fun _ => none⟩

/-- What a call records.  A call that does not give a descriptor and absolute paths records
nothing. -/
def step (m : FdLedger) : FdOp → FdLedger
  | .remember pid fd record =>
    if 0 ≤ fd ∧ IsAbsolute record.1.path then
      { m with paths := Function.update m.paths (pid, fd) (some record.1) }
    else m
  | .rememberDirfd pid fd names =>
    if 0 ≤ fd ∧ IsAbsolute names.1.procPath ∧ IsAbsolute names.1.guestDir then
      { m with dirfds := Function.update m.dirfds (pid, fd) (some names.1) }
    else m
  | .forget pid fd =>
    ⟨Function.update m.paths (pid, fd) none, Function.update m.dirfds (pid, fd) none⟩
  | .forgetDirfd pid fd => { m with dirfds := Function.update m.dirfds (pid, fd) none }
  | .forgetRange pid first last =>
    ⟨forgetWhere m.paths pid (inRange first last), forgetWhere m.dirfds pid (inRange first last)⟩
  | .clear pid => ⟨forgetWhere m.paths pid fun _ => true, forgetWhere m.dirfds pid fun _ => true⟩
  | .clearDirfds pid => { m with dirfds := forgetWhere m.dirfds pid fun _ => true }
  | .copy pid sourceFd targetFd =>
    ⟨Function.update m.paths (pid, targetFd) (m.paths (pid, sourceFd)),
      Function.update m.dirfds (pid, targetFd) (m.dirfds (pid, sourceFd))⟩
  | .inherit parentPid childPid =>
    ⟨inherit m.paths parentPid childPid, inherit m.dirfds parentPid childPid⟩

end FdLedger

/-! ### The table of paths -/

/-- What an entry says of its descriptor. -/
def ProcFdPath.record (s : ProcFdPath) : FdRecord :=
  ⟨s.path, s.hostPath, s.binding, s.hasAttributes, s.readonly, s.mountFlags⟩

/-- What an entry holds. -/
def ProcFdPath.reading (s : ProcFdPath) : Option ((ℕ × ℤ) × FdRecord) :=
  if s.path = [] then none else some ((s.pid, s.fd), s.record)

theorem ProcFdPath.reading_eq_some {s : ProcFdPath} {k : ℕ × ℤ} {r : FdRecord} :
    s.reading = some (k, r) ↔ s.path ≠ [] ∧ (s.pid, s.fd) = k ∧ s.record = r := by
  rw [reading]
  split <;> simp [*]

namespace ProcFdPaths

/-- The entry is that of a descriptor, with paths in path buffers, or says nothing. -/
def Proper (s : ProcFdPath) : Prop :=
  if s.path = [] then s.binding = none ∧ s.hasAttributes = false
  else 0 ≤ s.fd ∧ IsAbsolute s.path ∧ s.record.Fits

/-- The table holds what the ledger has, or less. -/
structure Sound (m : ℕ × ℤ → Option FdRecord) (c : ProcFdPaths) : Prop where
  coherent : Slots.Coherent ProcFdPath.reading m c.slots
  proper : ∀ s ∈ c.slots, Proper s
  /-- An entry in use is the first that the loops find, also where entries that are not in
  use have its numbers. -/
  first : ∀ (i j : ℕ) (s t : ProcFdPath), i < j → c.slots[j]? = some s → s.path ≠ [] →
    c.slots[i]? = some t → ¬ (t.pid = s.pid ∧ t.fd = s.fd)

variable {m m' : ℕ × ℤ → Option FdRecord} {c : ProcFdPaths} {pid : ℕ} {fd : ℤ}

theorem reading_forgotten (s : ProcFdPath) : (forgotten s).reading = none := rfl

theorem proper_forgotten (s : ProcFdPath) : Proper (forgotten s) := ⟨rfl, rfl⟩

namespace Sound

theorem init (m : ℕ × ℤ → Option FdRecord) : ProcFdPaths.init.Sound m := by
  have hfree : ∀ i k v, Slots.entry ProcFdPath.reading ProcFdPaths.init.slots i ≠ some (k, v) := by
    intro i k v hi
    obtain ⟨s, hs, hread⟩ := Slots.entry_eq_some.1 hi
    rw [List.eq_of_mem_replicate (List.mem_of_getElem? hs)] at hread
    exact absurd hread (by simp [ProcFdPath.reading])
  refine ⟨⟨fun i _ k v _ hi => absurd hi (hfree i k v), fun i k v hi => absurd hi (hfree i k v)⟩,
    fun s hs => ?_, fun i j s t _ hs huse => ?_⟩
  · rw [List.eq_of_mem_replicate hs]
    exact ⟨rfl, rfl⟩
  · rw [List.eq_of_mem_replicate (List.mem_of_getElem? hs)] at huse
    exact absurd rfl huse

theorem mono (h : c.Sound m)
    (hkept : ∀ i k v, Slots.entry ProcFdPath.reading c.slots i = some (k, v) → m' k = m k) :
    c.Sound m' :=
  ⟨h.coherent.of_less (Slots.Less.refl _) hkept, h.proper, h.first⟩

theorem entry_of_getElem? {i : ℕ} {s : ProcFdPath} (hs : c.slots[i]? = some s)
    (huse : s.path ≠ []) :
    Slots.entry ProcFdPath.reading c.slots i = some ((s.pid, s.fd), s.record) :=
  Slots.entry_eq_some.2 ⟨s, hs, ProcFdPath.reading_eq_some.2 ⟨huse, rfl, rfl⟩⟩

/-- The loops that forget. -/
theorem map_forgotten (h : c.Sound m) (p : ProcFdPath → Prop) [DecidablePred p]
    (hkept : ∀ s, s.path ≠ [] → ¬ p s → m' (s.pid, s.fd) = m (s.pid, s.fd)) :
    Sound m' { c with slots := c.slots.map fun s => if p s then forgotten s else s } := by
  have hold : ∀ (i : ℕ) (s : ProcFdPath), (c.slots.map fun s => if p s then forgotten s else s)[i]? =
      some s → s.path ≠ [] → c.slots[i]? = some s ∧ ¬ p s := by
    intro i s hs huse
    rw [List.getElem?_map, Option.map_eq_some_iff] at hs
    obtain ⟨a, ha, rfl⟩ := hs
    by_cases hp : p a
    · rw [if_pos hp] at huse
      exact absurd rfl huse
    · rw [if_neg hp]
      exact ⟨ha, hp⟩
  constructor
  · refine h.coherent.of_less (Slots.Less.map _ fun a => ?_) fun i k v hi => ?_
    · by_cases hp : p a
      · exact .inr (by rw [if_pos hp, reading_forgotten])
      · exact .inl (if_neg hp)
    · obtain ⟨s, hs, hread⟩ := Slots.entry_eq_some.1 hi
      obtain ⟨huse, rfl, -⟩ := ProcFdPath.reading_eq_some.1 hread
      exact hkept s huse (hold i s hs huse).2
  · intro s hs
    obtain ⟨a, ha, rfl⟩ := List.mem_map.1 hs
    split
    · exact proper_forgotten a
    · exact h.proper a ha
  · intro i j s t hij hs huse ht
    obtain ⟨hs, -⟩ := hold j s hs huse
    rw [List.getElem?_map, Option.map_eq_some_iff] at ht
    obtain ⟨a, ha, rfl⟩ := ht
    split
    · -- A forgotten entry has the number of no descriptor.
      have hproper := h.proper s (List.mem_of_getElem? hs)
      rw [Proper, if_neg huse] at hproper
      rintro ⟨-, hfd⟩
      rw [← hfd] at hproper
      exact absurd hproper.1 (by simp [forgotten])
    · exact h.first i j s a hij hs huse ha

theorem forget (h : c.Sound m) (pid : ℕ) (fd : ℤ) :
    (c.forget pid fd).Sound (Function.update m (pid, fd) none) := by
  refine h.map_forgotten (fun s => s.pid = pid ∧ s.fd = fd) fun s _ hne => ?_
  apply Function.update_of_ne
  intro hkey
  exact hne (Prod.mk.inj hkey)

theorem forgetRange (h : c.Sound m) (pid first last : ℕ) :
    (c.forgetRange pid first last).Sound
      (FdLedger.forgetWhere m pid (FdLedger.inRange first last)) := by
  refine h.map_forgotten _ fun s _ hne => ?_
  rw [FdLedger.forgetWhere, if_neg]
  simpa [FdLedger.inRange, and_assoc] using hne

theorem clear (h : c.Sound m) (pid : ℕ) :
    (c.clear pid).Sound (FdLedger.forgetWhere m pid fun _ => true) := by
  refine h.map_forgotten _ fun s _ hne => ?_
  rw [FdLedger.forgetWhere, if_neg]
  simpa using hne

/-- **An entry is written** where no other entry of its descriptor is found. -/
theorem set (h : c.Sound m) {i : ℕ} {new : ProcFdPath} (hproper : Proper new) (huse : new.path ≠ [])
    (hbefore : ∀ (j : ℕ) (t : ProcFdPath), j < i → c.slots[j]? = some t →
      ¬ (t.pid = new.pid ∧ t.fd = new.fd))
    (hafter : ∀ (j : ℕ) (t : ProcFdPath), i < j → c.slots[j]? = some t → t.path ≠ [] →
      ¬ (t.pid = new.pid ∧ t.fd = new.fd)) (next : ℕ) :
    Sound (Function.update m (new.pid, new.fd) (some new.record)) ⟨c.slots.set i new, next⟩ := by
  constructor
  · refine h.coherent.put (ProcFdPath.reading_eq_some.2 ⟨huse, rfl, rfl⟩) fun j v hj => ?_
    obtain ⟨t, ht, hread⟩ := Slots.entry_eq_some.1 hj
    obtain ⟨htuse, hkey, -⟩ := ProcFdPath.reading_eq_some.1 hread
    obtain hlt | heq | hgt := Nat.lt_trichotomy j i
    · exact absurd (Prod.mk.inj hkey) (hbefore j t hlt ht)
    · exact heq
    · exact absurd (Prod.mk.inj hkey) (hafter j t hgt ht htuse)
  · intro s hs
    obtain hs | rfl := List.mem_or_eq_of_mem_set hs
    · exact h.proper s hs
    · exact hproper
  · intro a b s t hab hs hsuse ht
    dsimp only at hs ht
    by_cases hib : i = b
    · subst hib
      rw [List.getElem?_set_ne (by omega)] at ht
      obtain ⟨hlt, hs⟩ := List.getElem?_eq_some_iff.1 hs
      rw [List.getElem_set_self] at hs
      subst hs
      exact hbefore a t hab ht
    · rw [List.getElem?_set_ne hib] at hs
      by_cases hia : i = a
      · subst hia
        obtain ⟨hlt, ht⟩ := List.getElem?_eq_some_iff.1 ht
        rw [List.getElem_set_self] at ht
        subst ht
        rintro ⟨hpid, hfd⟩
        exact hafter b s hab hs hsuse ⟨hpid.symm, hfd.symm⟩
      · rw [List.getElem?_set_ne hia] at ht
        exact h.first a b s t hab hs hsuse ht

/-- **A descriptor is recorded.** -/
theorem remember (h : c.Sound m) (new : ProcFdPath) (hfd : 0 ≤ new.fd)
    (habs : IsAbsolute new.path) (hfits : new.record.Fits) :
    (c.remember new).Sound (Function.update m (new.pid, new.fd) (some new.record)) := by
  have huse : new.path ≠ [] := by
    intro hnil
    simp [hnil, IsAbsolute] at habs
  have hproper : Proper new := by
    rw [Proper, if_neg huse]
    exact ⟨hfd, habs, hfits⟩
  have hnew : { new with
      path := new.path.take (pathMax - 1)
      hostPath := new.hostPath.take (pathMax - 1) } = new := by
    have hpath : new.path.length < pathMax := hfits.1
    have hhost : new.hostPath.length < pathMax := hfits.2
    rw [List.take_of_length_le (by omega), List.take_of_length_le (by omega)]
  simp only [ProcFdPaths.remember, habs, not_true_eq_false, or_false, not_lt.2 hfd, if_false, hnew]
  cases hfound : c.slots.findIdx? fun s => s.pid = new.pid ∧ s.fd = new.fd with
  | none =>
    have hnone := List.findIdx?_eq_none_iff.1 hfound
    refine h.set hproper huse (fun j t _ ht => ?_) (fun j t _ ht _ => ?_) _
    · simpa using hnone t (List.mem_of_getElem? ht)
    · simpa using hnone t (List.mem_of_getElem? ht)
  | some i =>
    obtain ⟨hlt, hi, hbefore⟩ := List.findIdx?_eq_some_iff_getElem.1 hfound
    refine h.set hproper huse (fun j t hj ht => ?_) (fun j t hj ht htuse hsame => ?_) _
    · obtain ⟨_, rfl⟩ := List.getElem?_eq_some_iff.1 ht
      simpa using hbefore j hj
    · have hfirst := h.first i j t _ hj ht htuse (List.getElem?_eq_getElem hlt)
      rw [hsame.1, hsame.2] at hfirst
      exact hfirst (by simpa using hi)

/-- What is found of a descriptor in use. -/
theorem lookup_of_mem (h : c.Sound m) {s : ProcFdPath} (hs : s ∈ c.slots) (huse : s.path ≠ []) :
    Slots.lookup ProcFdPath.reading c.slots (s.pid, s.fd) = some s.record := by
  obtain ⟨i, hi⟩ := List.mem_iff_getElem?.1 hs
  exact (Slots.lookup_eq_some h.coherent.distinct).2 ⟨i, entry_of_getElem? hi huse⟩

/-- The entry in use comes first in every search for its descriptor. -/
theorem find?_of_lookup (h : c.Sound m) {r : FdRecord}
    (hr : Slots.lookup ProcFdPath.reading c.slots (pid, fd) = some r) :
    ∃ s ∈ c.slots, s = r.slot pid fd ∧ s.path ≠ [] ∧ ∀ q : ProcFdPath → Bool, q s →
      c.slots.find? (fun t => t.pid = pid ∧ t.fd = fd ∧ q t) = some s := by
  obtain ⟨i, hi⟩ := (Slots.lookup_eq_some h.coherent.distinct).1 hr
  obtain ⟨s, hs, hread⟩ := Slots.entry_eq_some.1 hi
  obtain ⟨huse, hkey, rfl⟩ := ProcFdPath.reading_eq_some.1 hread
  obtain ⟨rfl, rfl⟩ := Prod.mk.inj hkey
  obtain ⟨hlt, hget⟩ := List.getElem?_eq_some_iff.1 hs
  refine ⟨s, List.mem_of_getElem? hs, rfl, huse, fun q hq => ?_⟩
  rw [List.find?_eq_some_iff_getElem]
  refine ⟨by simp [hq], i, hlt, hget, fun j hj => ?_⟩
  have hfirst := h.first j i s _ hj hs huse (List.getElem?_eq_getElem (by omega))
  simp only [Bool.not_eq_eq_eq_not, Bool.not_true, decide_eq_false_iff_not]
  rintro ⟨hpid, hfd, -⟩
  exact hfirst ⟨hpid, hfd⟩

/-- **`recall_proc_fd_path`** finds what the table holds under the descriptor. -/
theorem recallPath_eq_lookup (h : c.Sound m) (pid : ℕ) (fd : ℤ) :
    c.recallPath pid fd =
      (Slots.lookup ProcFdPath.reading c.slots (pid, fd)).map (·.path) := by
  cases hr : Slots.lookup ProcFdPath.reading c.slots (pid, fd) with
  | none =>
    rw [recallPath, Option.map_none, Option.map_eq_none_iff, List.find?_eq_none]
    intro s hs hfound
    obtain ⟨rfl, rfl, huse⟩ := by simpa using hfound
    rw [h.lookup_of_mem hs huse] at hr
    exact absurd hr (by simp)
  | some r =>
    obtain ⟨s, -, hs, huse, hfind⟩ := h.find?_of_lookup hr
    have hfound := hfind (fun t => t.path ≠ []) (by simpa using huse)
    simp only [decide_eq_true_eq] at hfound
    rw [recallPath, hfound, hs]
    rfl

/-- **`recall_proc_fd_mount_attributes`.** -/
theorem recallMountAttributes_eq_lookup (h : c.Sound m) (pid : ℕ) (fd : ℤ) :
    c.recallMountAttributes pid fd =
      (Slots.lookup ProcFdPath.reading c.slots (pid, fd)).bind fun r =>
        if r.hasAttributes then some (r.readonly, r.mountFlags) else none := by
  cases hfound : c.slots.find? fun s => s.pid = pid ∧ s.fd = fd ∧ s.hasAttributes with
  | none =>
    rw [recallMountAttributes, hfound, Option.map_none]
    cases hr : Slots.lookup ProcFdPath.reading c.slots (pid, fd) with
    | none => rfl
    | some r =>
      obtain ⟨s, hmem, hs, -, -⟩ := h.find?_of_lookup hr
      have hnot := List.find?_eq_none.1 hfound s hmem
      have hattributes : r.hasAttributes = false := by
        simpa [hs, FdRecord.slot] using hnot
      simp [hattributes]
  | some s =>
    have hmem := List.mem_of_find?_eq_some hfound
    obtain ⟨rfl, rfl, hattributes⟩ := by simpa using List.find?_some hfound
    have huse : s.path ≠ [] := by
      intro hnil
      have hproper := h.proper s hmem
      rw [Proper, if_pos hnil, hattributes] at hproper
      exact absurd hproper.2 (by decide)
    have hrecord : s.record.hasAttributes = true := hattributes
    rw [recallMountAttributes, hfound, h.lookup_of_mem hmem huse, Option.bind_some, if_pos hrecord]
    rfl

/-- **`recall_proc_fd_binding`.** -/
theorem recallBinding_eq_lookup (h : c.Sound m) (pid : ℕ) (fd : ℤ) (link : Except Errno CStr) :
    c.recallBinding pid fd link =
      (Slots.lookup ProcFdPath.reading c.slots (pid, fd)).bind fun r =>
        if link = .ok r.hostPath then r.binding else none := by
  cases link with
  | error e => simp [recallBinding]
  | ok hostPath =>
    cases hr : Slots.lookup ProcFdPath.reading c.slots (pid, fd) with
    | none =>
      rw [recallBinding, Option.bind_none]
      cases hfound : c.slots.find? fun s => s.pid = pid ∧ s.fd = fd ∧ s.hostPath = hostPath with
      | none => rfl
      | some s =>
        have hmem := List.mem_of_find?_eq_some hfound
        obtain ⟨rfl, rfl, -⟩ := by simpa using List.find?_some hfound
        have hproper := h.proper s hmem
        rw [Proper, if_pos] at hproper
        · exact hproper.1
        · by_contra huse
          rw [h.lookup_of_mem hmem huse] at hr
          exact absurd hr (by simp)
    | some r =>
      obtain ⟨s, hmem, hs, huse, hfind⟩ := h.find?_of_lookup hr
      have hhost : s.hostPath = r.hostPath := by rw [hs]; rfl
      by_cases hlink : hostPath = r.hostPath
      · have hfound := hfind (fun t => t.hostPath = hostPath) (by simp [hhost, hlink])
        simp only [decide_eq_true_eq] at hfound
        rw [recallBinding, hfound, hs, hlink]
        simp [FdRecord.slot]
      · rw [recallBinding, Option.bind_some, if_neg (by simpa using hlink)]
        cases hfound : c.slots.find? fun s => s.pid = pid ∧ s.fd = fd ∧ s.hostPath = hostPath with
        | none => rfl
        | some t =>
          -- Another entry with these numbers is not in use.
          have htmem := List.mem_of_find?_eq_some hfound
          obtain ⟨hpid, hfd, hthost⟩ := by simpa using List.find?_some hfound
          have hproper := h.proper t htmem
          rw [Proper, if_pos] at hproper
          · exact hproper.1
          · by_contra htuse
            have hlookup := h.lookup_of_mem htmem htuse
            rw [hpid, hfd, hr, Option.some.injEq] at hlookup
            exact hlink (by rw [hlookup, ← hthost]; rfl)

end Sound

/-- One round of `inherit_proc_fd_paths`. -/
def inheritRound (parentPid childPid : ℕ) (c : ProcFdPaths) (index : ℕ) : ProcFdPaths :=
  match c.slots[index]? with
  | some s => if s.pid = parentPid then c.remember { s with pid := childPid } else c
  | none => c

theorem inherit_eq_foldl (c : ProcFdPaths) (parentPid childPid : ℕ) :
    c.inherit parentPid childPid =
      (List.range procFdPathCacheSize).foldl (inheritRound parentPid childPid)
        (c.clear childPid) := by
  rw [inherit]
  congr

theorem Sound.inherit (h : c.Sound m) (parentPid childPid : ℕ) :
    (c.inherit parentPid childPid).Sound (FdLedger.inherit m parentPid childPid) := by
  have hchild := FdLedger.inherit_child m parentPid childPid
  have hclear : (c.clear childPid).Sound (FdLedger.inherit m parentPid childPid) := by
    refine (h.clear childPid).mono fun i k v hi => ?_
    exact FdLedger.inherit_of_forgetWhere ((h.clear childPid).coherent.within i k v hi)
  rw [inherit_eq_foldl]
  refine List.foldlRecOn (motive := ProcFdPaths.Sound _) _ _ hclear fun c hc index _ => ?_
  rw [inheritRound]
  cases hs : c.slots[index]? with
  | none => exact hc
  | some s =>
    dsimp only
    split
    · rename_i hpid
      have hproper := hc.proper s (List.mem_of_getElem? hs)
      by_cases huse : s.path = []
      · rw [ProcFdPaths.remember, if_pos (.inr (by simp [huse, IsAbsolute]))]
        exact hc
      · rw [Proper, if_neg huse] at hproper
        have hm := hc.coherent.within index _ _ (entry_of_getElem? hs huse)
        have hsound := hc.remember { s with pid := childPid } hproper.1 hproper.2.1
          hproper.2.2
        rw [hpid, ← hchild s.fd] at hm
        dsimp only at hsound
        have hrecord : ({ s with pid := childPid } : ProcFdPath).record = s.record := rfl
        rwa [hrecord, ← hm, Function.update_eq_self] at hsound
    · exact hc

end ProcFdPaths

/-! ### Both tables -/

namespace FdCaches

/-- Both tables hold what the ledger has, or less. -/
structure Sound (m : FdLedger) (c : FdCaches) : Prop where
  paths : c.paths.Sound m.paths
  dirfds : c.dirfds.Sound m.dirfds

variable {m : FdLedger} {c : FdCaches}

theorem sound_mk {paths : ProcFdPaths} {dirfds : DirfdCache} {p : ℕ × ℤ → Option FdRecord}
    {d : ℕ × ℤ → Option DirNames} (hpaths : paths.Sound p) (hdirfds : dirfds.Sound d) :
    FdCaches.Sound ⟨p, d⟩ ⟨paths, dirfds⟩ := ⟨hpaths, hdirfds⟩

theorem Sound.copy (h : c.Sound m) (pid : ℕ) (sourceFd targetFd : ℤ) :
    (c.copy pid sourceFd targetFd).Sound (m.step (.copy pid sourceFd targetFd)) := by
  rw [FdCaches.copy, h.paths.recallPath_eq_lookup]
  cases hr : Slots.lookup ProcFdPath.reading c.paths.slots (pid, sourceFd) with
  | none =>
    constructor
    · refine (h.paths.forget pid targetFd).mono fun i k r hi => ?_
      have hk := (h.paths.forget pid targetFd).coherent.within i k r hi
      have hne : k ≠ (pid, targetFd) := by
        rintro rfl
        rw [Function.update_self] at hk
        exact absurd hk (by simp)
      simp only [FdLedger.step]
      rw [Function.update_of_ne hne, Function.update_of_ne hne]
    · have hcopy := (h.dirfds.forget pid targetFd).copy pid sourceFd targetFd
      refine ⟨hcopy.coherent.of_less (Slots.Less.refl _) fun i k n hi => ?_, hcopy.proper,
        hcopy.length⟩
      have hk := hcopy.coherent.within i k n hi
      simp only [FdLedger.step]
      by_cases hkey : k = (pid, targetFd)
      · rw [hkey, Function.update_self] at hk ⊢
        rw [Function.update_self]
        -- The source cannot be the target, which has just been forgotten.
        have hne : (pid, sourceFd) ≠ (pid, targetFd) := by
          intro hsame
          rw [hsame, Function.update_self] at hk
          exact absurd hk (by simp)
        rw [Function.update_of_ne hne]
      · rw [Function.update_of_ne hkey, Function.update_of_ne hkey, Function.update_of_ne hkey]
  | some r =>
    refine ⟨?_, h.dirfds.copy pid sourceFd targetFd⟩
    obtain ⟨s, hmem, hs, huse, hfind⟩ := h.paths.find?_of_lookup hr
    have hfound := hfind (fun _ => true) rfl
    simp only [and_true] at hfound
    have hproper := h.paths.proper s hmem
    rw [ProcFdPaths.Proper, if_neg huse] at hproper
    have hm : m.paths (pid, sourceFd) = some r := by
      obtain ⟨i, hi⟩ := (Slots.lookup_eq_some h.paths.coherent.distinct).1 hr
      exact h.paths.coherent.within i _ r hi
    simp only [Option.map_some, hfound, FdLedger.step, hm]
    have hcopied : ({ s with fd := targetFd, path := r.path } : ProcFdPath) = r.slot pid targetFd := by
      rw [hs]
      rfl
    rw [hcopied]
    have hrecord : s.record = r := by
      rw [hs]
      rfl
    rw [hrecord] at hproper
    by_cases htarget : 0 ≤ targetFd
    · have hpath : IsAbsolute (r.slot pid targetFd).path := by
        have habs := hproper.2.1
        rwa [hs] at habs
      exact h.paths.remember (r.slot pid targetFd) htarget hpath hproper.2.2
    · rw [ProcFdPaths.remember, if_pos (.inl (by simpa [FdRecord.slot] using htarget))]
      refine h.paths.mono fun i k v hi => ?_
      apply Function.update_of_ne
      rintro rfl
      obtain ⟨t, ht, hread⟩ := Slots.entry_eq_some.1 hi
      obtain ⟨htuse, hkey, -⟩ := ProcFdPath.reading_eq_some.1 hread
      have htproper := h.paths.proper t (List.mem_of_getElem? ht)
      rw [ProcFdPaths.Proper, if_neg htuse, (Prod.mk.inj hkey).2] at htproper
      exact htarget htproper.1

/-- **One call.** -/
theorem Sound.step (h : c.Sound m) (op : FdOp) : (c.step op).Sound (m.step op) := by
  cases op with
  | remember pid fd record =>
    simp only [FdCaches.step, FdLedger.step]
    split
    · rename_i hgiven
      exact ⟨h.paths.remember (record.1.slot pid fd) hgiven.1 hgiven.2 record.2, h.dirfds⟩
    · rename_i hnot
      rw [ProcFdPaths.remember, if_pos (by simpa [FdRecord.slot, imp_iff_not_or] using hnot)]
      exact h
  | rememberDirfd pid fd names =>
    simp only [FdCaches.step, FdLedger.step]
    split
    · rename_i hgiven
      exact ⟨h.paths, h.dirfds.remember pid names.1 hgiven.1 hgiven.2.1 hgiven.2.2 names.2⟩
    · rename_i hnot
      rw [DirfdCache.remember, if_pos (by simpa [imp_iff_not_or, or_assoc] using hnot)]
      exact h
  | forget pid fd => exact ⟨h.paths.forget pid fd, h.dirfds.forget pid fd⟩
  | forgetDirfd pid fd => exact ⟨h.paths, h.dirfds.forget pid fd⟩
  | forgetRange pid first last =>
    exact sound_mk (h.paths.forgetRange pid first last) (h.dirfds.forgetRange pid first last)
  | clear pid => exact sound_mk (h.paths.clear pid) (h.dirfds.clear pid)
  | clearDirfds pid => exact sound_mk h.paths (h.dirfds.clear pid)
  | copy pid sourceFd targetFd => exact h.copy pid sourceFd targetFd
  | inherit parentPid childPid =>
    exact sound_mk (h.paths.inherit parentPid childPid) (h.dirfds.inherit parentPid childPid)

/-- **A run.** -/
theorem Sound.run (h : c.Sound m) (ops : List FdOp) :
    (ops.foldl FdCaches.step c).Sound (ops.foldl FdLedger.step m) := by
  induction ops generalizing c m with
  | nil => exact h
  | cons op ops ih => exact ih (h.step op)

theorem sound_init (m : FdLedger) : init.Sound m := ⟨.init m.paths, .init m.dirfds⟩

/-! ### What is recalled -/

/-- Every recall of a descriptor finds nothing, or what its record and its names have. -/
structure Recalls (c : FdCaches) (pid : ℕ) (fd : ℤ) (record : Option FdRecord)
    (names : Option DirNames) : Prop where
  path : c.paths.recallPath pid fd = none ∨ c.paths.recallPath pid fd = record.map (·.path)
  binding : ∀ link, c.paths.recallBinding pid fd link = none ∨
    c.paths.recallBinding pid fd link =
      record.bind fun r => if link = .ok r.hostPath then r.binding else none
  mountAttributes : c.paths.recallMountAttributes pid fd = none ∨
    c.paths.recallMountAttributes pid fd =
      record.bind fun r => if r.hasAttributes then some (r.readonly, r.mountFlags) else none
  dirfd : c.dirfds.recallNames pid fd = none ∨ c.dirfds.recallNames pid fd = names

/-- No two entries in use are those of one descriptor. -/
def Distinct (c : FdCaches) : Prop :=
  Slots.Distinct ProcFdPath.reading c.paths.slots ∧ Slots.Distinct DirfdSlot.reading c.dirfds.slots

/-- Every recall after the inheritance finds nothing or what it found before, of the parent
where it is about the child. -/
structure InheritsOnly (c : FdCaches) (parentPid childPid pid : ℕ) (fd : ℤ) : Prop where
  path : (c.inherit parentPid childPid).paths.recallPath pid fd = none ∨
    (c.inherit parentPid childPid).paths.recallPath pid fd =
      c.paths.recallPath (if pid = childPid then parentPid else pid) fd
  binding : ∀ link, (c.inherit parentPid childPid).paths.recallBinding pid fd link = none ∨
    (c.inherit parentPid childPid).paths.recallBinding pid fd link =
      c.paths.recallBinding (if pid = childPid then parentPid else pid) fd link
  mountAttributes : (c.inherit parentPid childPid).paths.recallMountAttributes pid fd = none ∨
    (c.inherit parentPid childPid).paths.recallMountAttributes pid fd =
      c.paths.recallMountAttributes (if pid = childPid then parentPid else pid) fd
  dirfd : (c.inherit parentPid childPid).dirfds.recallNames pid fd = none ∨
    (c.inherit parentPid childPid).dirfds.recallNames pid fd =
      c.dirfds.recallNames (if pid = childPid then parentPid else pid) fd

theorem Sound.recalls (h : c.Sound m) (pid : ℕ) (fd : ℤ) :
    c.Recalls pid fd (m.paths (pid, fd)) (m.dirfds (pid, fd)) := by
  have hpaths := h.paths.coherent.lookup (pid, fd)
  have hdirfds := h.dirfds.coherent.lookup (pid, fd)
  constructor
  · rw [h.paths.recallPath_eq_lookup]
    obtain hnone | hsame := hpaths
    · exact .inl (by rw [hnone, Option.map_none])
    · exact .inr (by rw [hsame])
  · intro link
    rw [h.paths.recallBinding_eq_lookup]
    obtain hnone | hsame := hpaths
    · exact .inl (by rw [hnone, Option.bind_none])
    · exact .inr (by rw [hsame])
  · rw [h.paths.recallMountAttributes_eq_lookup]
    obtain hnone | hsame := hpaths
    · exact .inl (by rw [hnone, Option.bind_none])
    · exact .inr (by rw [hsame])
  · rwa [h.dirfds.recallNames_eq_lookup]

/-- What the tables hold, as a ledger. -/
def ledger (c : FdCaches) : FdLedger :=
  ⟨Slots.lookup ProcFdPath.reading c.paths.slots, Slots.lookup DirfdSlot.reading c.dirfds.slots⟩

theorem Sound.ledger (h : c.Sound m) : c.Sound c.ledger :=
  ⟨⟨h.paths.coherent.distinct.coherent_lookup, h.paths.proper, h.paths.first⟩,
    ⟨h.dirfds.coherent.distinct.coherent_lookup, h.dirfds.proper, h.dirfds.length⟩⟩

theorem Sound.inheritsOnly (h : c.Sound m) (parentPid childPid pid : ℕ) (fd : ℤ) :
    c.InheritsOnly parentPid childPid pid fd := by
  have hstep := (h.ledger.step (.inherit parentPid childPid)).recalls pid fd
  have hinherit : ∀ {ν : Type} (m : ℕ × ℤ → Option ν), FdLedger.inherit m parentPid childPid
      (pid, fd) = m (if pid = childPid then parentPid else pid, fd) := by
    intro ν m
    rw [FdLedger.inherit]
    split <;> rfl
  simp only [FdLedger.step, hinherit] at hstep
  constructor
  · rw [h.paths.recallPath_eq_lookup]
    exact hstep.path
  · intro link
    rw [h.paths.recallBinding_eq_lookup]
    exact hstep.binding link
  · rw [h.paths.recallMountAttributes_eq_lookup]
    exact hstep.mountAttributes
  · rw [h.dirfds.recallNames_eq_lookup]
    exact hstep.dirfd

/-- **The tables are coherent over every run.**  A recall finds nothing or what was last
recorded of the descriptor, no two entries are of one descriptor, and a child that inherits
gets its parent's descriptors or none. -/
theorem recall_coherent (ops : List FdOp) :
    (∀ pid fd, (ops.foldl step init).Recalls pid fd
      ((ops.foldl FdLedger.step FdLedger.empty).paths (pid, fd))
      ((ops.foldl FdLedger.step FdLedger.empty).dirfds (pid, fd))) ∧
    (ops.foldl step init).Distinct ∧
    ∀ parentPid childPid pid fd, (ops.foldl step init).InheritsOnly parentPid childPid pid fd := by
  have hrun := (sound_init FdLedger.empty).run ops
  exact ⟨hrun.recalls, ⟨hrun.paths.coherent.distinct, hrun.dirfds.coherent.distinct⟩,
    hrun.inheritsOnly⟩

end FdCaches

end NeoProot
