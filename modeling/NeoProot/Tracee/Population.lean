import Mathlib.Data.Int.Notation
import Mathlib.Data.List.Nodup
import Mathlib.Data.List.Perm.Subperm

/-!
# The list of tracees

A tracee has a parent and perhaps a ptracer, both pointers into the list.  When it ends it is
marked, later freed, and on its way out the tracees that point at it are let go of.  Each of
these walks over the list first collects the tracees it is about into an array of a fixed length,
and acts afterwards.

Pointers are numbers that are not given twice, so one that dangles stays so.

## Main definitions

* `Process`, `Zombie`, `Population` — a tracee, one that its ptracer has not collected, and all.
* `Population.removeTracee`, `Population.freeTerminatedTracees`, `Population.killAllTracees` —
  the walks.
* `Population.removal_complete_iff` — the walks that reach every tracee.
-/

namespace NeoProot.Ptrace

/-! ### Batches

The first so many elements of a list with a property. -/

section Batches

variable {α : Type*} (p : α → Bool) (n : ℕ)

/-- What a walk collects. -/
def batch (l : List α) : List α := (l.filter p).take n

variable {p n} {l : List α}

theorem mem_of_mem_batch {x : α} (h : x ∈ batch p n l) : x ∈ l ∧ p x = true :=
  List.mem_filter.1 (List.mem_of_mem_take h)

/-- A walk collects all it is about exactly when there are not too many. -/
theorem forall_mem_batch_iff (hl : l.Nodup) :
    (∀ x ∈ l, p x = true → x ∈ batch p n l) ↔ l.countP p ≤ n := by
  rw [List.countP_eq_length_filter]
  constructor
  · intro hall
    have hsub : l.filter p ⊆ batch p n l := by
      intro x hx
      obtain ⟨hmem, hp⟩ := List.mem_filter.1 hx
      exact hall x hmem hp
    have hlength := (List.subperm_of_subset (hl.filter p) hsub).length_le
    rw [batch, List.length_take] at hlength
    omega
  · intro hle x hx hp
    rw [batch, List.take_of_length_le hle]
    exact List.mem_filter.2 ⟨hx, hp⟩

end Batches

/-! ### Tracees -/

/-- What a stop tells of a tracee: that it stopped, or that it has exited or was killed. -/
inductive EventKind
  | stops
  | ends
  deriving DecidableEq, Repr

/-- `as_ptracer.waits_in`. -/
inductive WaitsIn
  | doesntWait
  | inKernel
  | inProot
  deriving DecidableEq, Repr

/-- A ptracee that has ended, as its ptracer keeps it. -/
structure Zombie where
  pid : ℕ
  parent : Option ℕ
  clone : Bool
  deriving DecidableEq, Repr

/-- A tracee.  `prootEvent` and `ptracerEvent` are the events of `event4` that are pending. -/
structure Process where
  id : ℕ
  pid : ℕ
  parent : Option ℕ
  clone : Bool
  running : Bool
  terminated : Bool
  killallOnExit : Bool
  nbPtracees : ℕ
  zombies : List Zombie
  waitPid : ℤ
  waitOptions : ℕ
  waitsIn : WaitsIn
  ptracer : Option ℕ
  prootEvent : Option EventKind
  ptracerEvent : Option EventKind
  tracingStarted : Bool
  deriving DecidableEq, Repr

/-- The tracees, the last one first, and what the walks do beside: `killed` are the pids that
`SIGKILL` went to, and `echild` the tracees that go on with `ECHILD`.  `faulted` tells of a
failed assertion or a pointer that was followed to nothing. -/
structure Population where
  tracees : List Process
  hasTerminatedTracees : Bool
  signalInProgress : Bool
  killed : List ℕ
  echild : List ℕ
  faulted : Bool
  deriving DecidableEq, Repr

/-- The tracee points at the one with this number. -/
def Process.Refers (t : Process) (r : ℕ) : Prop := t.parent = some r ∨ t.ptracer = some r

instance (t : Process) (r : ℕ) : Decidable (t.Refers r) := inferInstanceAs (Decidable (_ ∨ _))

namespace Process

/-- `restart_tracee`: one that has ended or that waits for a ptracee is not restarted. -/
def restart (t : Process) : Process :=
  if t.terminated = true ∨ t.waitPid ≠ 0 then t else { t with running := true }

/-- Marked as ended. -/
def terminate (t : Process) : Process := { t with terminated := true }

/-- The event that PRoot had put off is dealt with. -/
def handled (t : Process) : Process :=
  if t.terminated then t else { t with prootEvent := none }

/-- Without a parent. -/
def leaveParent (t : Process) : Process := { t with parent := none }

/-- Without a ptracer. -/
def leavePtracer (t : Process) : Process := { t with ptracer := none }

/-- Without a ptracer, as `memset` leaves `as_ptracee`. -/
def clearPtracee (t : Process) : Process :=
  { t with ptracer := none, prootEvent := none, ptracerEvent := none, tracingStarted := false }

/-- With one ptracee less. -/
def losePtracee (t : Process) : Process := { t with nbPtracees := t.nbPtracees - 1 }

/-- With one ptracee more. -/
def gainPtracee (t : Process) : Process := { t with nbPtracees := t.nbPtracees + 1 }

/-- With one zombie more. -/
def keepZombie (z : Zombie) (t : Process) : Process := { t with zombies := z :: t.zombies }

/-- Woken from its `wait`. -/
def wake (t : Process) : Process := { t with waitPid := 0 }.restart

end Process

namespace Population

/-- The tracee at a pointer. -/
def get? (s : Population) (id : ℕ) : Option Process := s.tracees.find? (·.id == id)

/-- A tracee is changed in place. -/
def modify (s : Population) (id : ℕ) (f : Process → Process) : Population :=
  { s with tracees := s.tracees.map fun t => if t.id = id then f t else t }

/-- `kill_all_tracees`. -/
def killAllTracees (s : Population) : Population :=
  if s.signalInProgress then s
  else { s with killed := (((s.tracees.take 512).map (·.pid)).filter (0 < ·)) ++ s.killed }

/-- `terminate_tracee`. -/
def terminateTracee (s : Population) (t : Process) : Population :=
  let s := s.modify t.id Process.terminate
  let s := { s with hasTerminatedTracees := true }
  if t.killallOnExit then s.killAllTracees else s

/-- `handle_tracee_event`, as far as it is about the list. -/
def handleTraceeEvent (s : Population) (t : Process) : EventKind → Population
  | .ends => if t.terminated then s else s.terminateTracee t
  | .stops => s.modify t.id Process.handled

/-- The end of `detach_from_ptracer`: the ptracer has one ptracee less. -/
def dropPtracee (s : Population) (ptracer : ℕ) : Population :=
  match s.get? ptracer with
  | none => { s with faulted := true }
  | some p =>
    if 0 < p.nbPtracees then s.modify ptracer Process.losePtracee
    else { s with faulted := true }

/-- `detach_from_ptracer`. -/
def detachFromPtracer (s : Population) (ptracee : Process) : Population :=
  let s := s.modify ptracee.id Process.leavePtracer
  match ptracee.ptracer with
  | none => { s with faulted := true }
  | some ptracer => s.dropPtracee ptracer

/-- What `remove_tracee` does with a tracee that it has collected. -/
def orphan (r : ℕ) (s : Population) (id : ℕ) : Population :=
  match s.get? id with
  | none => s
  | some t =>
    let s := if t.parent = some r then s.modify id Process.leaveParent else s
    if t.ptracer = some r then
      let s := s.modify id Process.leavePtracer
      let s :=
        match t.prootEvent, t.ptracerEvent with
        | some event, _ => (s.handleTraceeEvent t event).modify id Process.restart
        | none, some _ => s.modify id Process.restart
        | none, none => s
      s.modify id Process.clearPtracee
    else s

/-- The last part of `remove_tracee`: the ptracer keeps a zombie, or has one ptracee less and does
not wait for it any longer. -/
def leavePtracer (s : Population) (r : Process) (ptracer : ℕ) : Population :=
  if r.ptracerEvent = some .ends then
    let s := s.modify ptracer (Process.keepZombie ⟨r.pid, r.parent, r.clone⟩)
    let s := s.dropPtracee ptracer
    s.modify ptracer Process.gainPtracee
  else
    let s := s.dropPtracee ptracer
    match s.get? ptracer with
    | none => s
    | some p =>
      if p.nbPtracees = 0 ∧ p.waitPid ≠ 0 then
        { s.modify ptracer Process.wake with echild := ptracer :: s.echild }
      else s

/-- `remove_tracee`. -/
def removeTracee (s : Population) (r : Process) : Population :=
  let s := { s with tracees := s.tracees.filter (·.id ≠ r.id) }
  let collected := (batch (fun t => decide (t.Refers r.id)) 256 s.tracees).map (·.id)
  let s := collected.foldl (orphan r.id) s
  match r.ptracer with
  | none => s
  | some ptracer => s.leavePtracer r ptracer

/-- What `free_terminated_tracees` does with a tracee that it has collected. -/
def freeTracee (s : Population) (id : ℕ) : Population :=
  match s.get? id with
  | none => s
  | some t =>
    let s :=
      if 0 < t.nbPtracees then
        (batch (fun e => decide (e.ptracer = some id)) 256 s.tracees).foldl detachFromPtracer s
      else s
    match s.get? id with
    | none => s
    | some t => s.removeTracee t

/-- `free_terminated_tracees`. -/
def freeTerminatedTracees (s : Population) : Population :=
  if s.hasTerminatedTracees then
    let collected := (batch (·.terminated) 256 s.tracees).map (·.id)
    collected.foldl freeTracee { s with hasTerminatedTracees := false }
  else s

/-! ### Numbers and pointers

The walks change tracees in place, so what they do to numbers and pointers can be said of the list
of these alone. -/

end Population

/-- The number of a tracee and its pointers. -/
def Process.link (t : Process) : ℕ × Option ℕ × Option ℕ := (t.id, t.parent, t.ptracer)

/-- What lets go of `r`. -/
def cut (r : ℕ) (l : ℕ × Option ℕ × Option ℕ) : ℕ × Option ℕ × Option ℕ :=
  (l.1, if l.2.1 = some r then none else l.2.1, if l.2.2 = some r then none else l.2.2)

/-- Pointers that lead to `r`. -/
def Leads (r : ℕ) (l : ℕ × Option ℕ × Option ℕ) : Prop := l.2.1 = some r ∨ l.2.2 = some r

theorem not_leads_cut (r : ℕ) (l : ℕ × Option ℕ × Option ℕ) : ¬ Leads r (cut r l) := by
  rintro (hparent | hptracer)
  · simp only [cut] at hparent
    split at hparent
    · cases hparent
    · rename_i hno
      exact hno hparent
  · simp only [cut] at hptracer
    split at hptracer
    · cases hptracer
    · rename_i hno
      exact hno hptracer

theorem cut_cut (r : ℕ) (l : ℕ × Option ℕ × Option ℕ) : cut r (cut r l) = cut r l := by
  simp only [cut]
  split <;> split <;> simp_all

namespace Process

@[simp] theorem link_restart (t : Process) : t.restart.link = t.link := by
  unfold restart
  split <;> rfl

@[simp] theorem link_handled (t : Process) : t.handled.link = t.link := by
  unfold handled
  split <;> rfl

@[simp] theorem link_wake (t : Process) : t.wake.link = t.link := link_restart _

end Process

namespace Population

/-- The numbers of the tracees, and their pointers. -/
def links (s : Population) : List (ℕ × Option ℕ × Option ℕ) := s.tracees.map Process.link

/-- The numbers of the tracees. -/
def ids (s : Population) : List ℕ := s.tracees.map (·.id)

/-- No number and no pid is given twice. -/
structure WellFormed (s : Population) : Prop where
  ids : s.ids.Nodup
  pids : (s.tracees.map (·.pid)).Nodup
  running : ∀ t ∈ s.tracees, 0 < t.pid

variable {s : Population} {t : Process} {id r : ℕ}

theorem ids_eq (s : Population) : s.ids = s.links.map Prod.fst := by
  rw [ids, links, List.map_map]
  rfl

theorem ids_of_links {s' : Population} (h : s'.links = s.links) : s'.ids = s.ids := by
  rw [ids_eq, ids_eq, h]

theorem mem_of_get? (h : s.get? id = some t) : t ∈ s.tracees ∧ t.id = id := by
  have hid := List.find?_some h
  exact ⟨List.mem_of_find?_eq_some h, beq_iff_eq.1 hid⟩

theorem get?_of_mem (hs : s.ids.Nodup) (ht : t ∈ s.tracees) : s.get? t.id = some t := by
  cases hget : s.get? t.id with
  | none => exact absurd (List.find?_eq_none.1 hget t ht) (by simp)
  | some u =>
    obtain ⟨hu, hid⟩ := mem_of_get? hget
    rw [List.inj_on_of_nodup_map hs hu ht hid]

theorem get?_eq_none_iff : s.get? id = none ↔ id ∉ s.ids := by
  rw [get?, List.find?_eq_none, ids, List.mem_map]
  constructor
  · rintro hnone ⟨u, hu, rfl⟩
    exact hnone u hu (beq_self_eq_true _)
  · intro hnone u hu hid
    exact hnone ⟨u, hu, beq_iff_eq.1 hid⟩

/-- Pointers when a tracee is changed. -/
theorem links_modify_map {f : Process → Process}
    {g : ℕ × Option ℕ × Option ℕ → ℕ × Option ℕ × Option ℕ} (hf : ∀ t, (f t).link = g t.link) :
    (s.modify id f).links = s.links.map fun l => if l.1 = id then g l else l := by
  simp only [links, modify, List.map_map]
  apply List.map_congr_left
  intro u _
  rw [Function.comp_apply, Function.comp_apply]
  by_cases hu : u.id = id
  · have hlink : u.link.1 = id := hu
    rw [if_pos hu, if_pos hlink, hf]
  · have hlink : u.link.1 ≠ id := hu
    rw [if_neg hu, if_neg hlink]

theorem links_modify {f : Process → Process} (hf : ∀ t, (f t).link = t.link) :
    (s.modify id f).links = s.links := by
  rw [links_modify_map (g := fun l => l) hf]
  simp only [ite_self, List.map_id']

@[simp] theorem links_killAllTracees : s.killAllTracees.links = s.links := by
  unfold killAllTracees
  split <;> rfl

theorem links_terminateTracee : (s.terminateTracee t).links = s.links := by
  have hmark : (s.modify t.id Process.terminate).links = s.links := links_modify fun _ => rfl
  unfold terminateTracee
  split
  · rw [links_killAllTracees]
    exact hmark
  · exact hmark

theorem links_handleTraceeEvent (event : EventKind) :
    (s.handleTraceeEvent t event).links = s.links := by
  cases event with
  | ends =>
    simp only [handleTraceeEvent]
    split
    · rfl
    · exact links_terminateTracee
  | stops => exact links_modify Process.link_handled

theorem links_dropPtracee (ptracer : ℕ) : (s.dropPtracee ptracer).links = s.links := by
  unfold dropPtracee
  split
  · rfl
  · split
    · exact links_modify fun _ => rfl
    · rfl

theorem links_leavePtracer (u : Process) (ptracer : ℕ) :
    (s.leavePtracer u ptracer).links = s.links := by
  unfold leavePtracer
  split
  · simp only
    rw [links_modify (f := Process.gainPtracee) fun _ => rfl, links_dropPtracee,
      links_modify (f := Process.keepZombie _) fun _ => rfl]
  · simp only
    split
    · exact links_dropPtracee ptracer
    · split
      · exact (links_modify Process.link_wake).trans (links_dropPtracee ptracer)
      · exact links_dropPtracee ptracer

/-- What `remove_tracee` does with a tracee of `r` that it has collected, but for its parent. -/
theorem links_orphan_ptracer :
    (((match t.prootEvent, t.ptracerEvent with
      | some event, _ =>
        ((s.modify id Process.leavePtracer).handleTraceeEvent t event).modify id Process.restart
      | none, some _ => (s.modify id Process.leavePtracer).modify id Process.restart
      | none, none => s.modify id Process.leavePtracer).modify id Process.clearPtracee).links) =
      s.links.map fun l => if l.1 = id then (l.1, l.2.1, none) else l := by
  have hclear : ∀ u : Population,
      u.links = s.links.map (fun l => if l.1 = id then (l.1, l.2.1, none) else l) →
      (u.modify id Process.clearPtracee).links =
        s.links.map fun l => if l.1 = id then (l.1, l.2.1, none) else l := by
    intro u hu
    rw [links_modify_map (g := fun l => (l.1, l.2.1, none)) fun _ => rfl, hu, List.map_map]
    apply List.map_congr_left
    intro l _
    rw [Function.comp_apply]
    by_cases hl : l.1 = id
    · simp only [hl, if_true]
    · simp only [if_neg hl]
  have hleave : (s.modify id Process.leavePtracer).links =
      s.links.map fun l => if l.1 = id then (l.1, l.2.1, none) else l :=
    links_modify_map (g := fun l => (l.1, l.2.1, none)) fun _ => rfl
  apply hclear
  split
  · rw [links_modify Process.link_restart, links_handleTraceeEvent, hleave]
  · rw [links_modify Process.link_restart, hleave]
  · exact hleave

/-- A tracee that is collected lets go of the one that is removed. -/
theorem links_orphan (hs : s.ids.Nodup) :
    (orphan r s id).links = s.links.map fun l => if l.1 = id then cut r l else l := by
  cases hget : s.get? id with
  | none =>
    simp only [orphan, hget]
    rw [get?_eq_none_iff, ids_eq] at hget
    have hsame : ∀ l ∈ s.links, (if l.1 = id then cut r l else l) = l := by
      intro l hl
      rw [if_neg]
      rintro rfl
      exact hget (List.mem_map_of_mem hl)
    rw [List.map_congr_left hsame, List.map_id']
  | some t =>
    simp only [orphan, hget]
    obtain ⟨ht, rfl⟩ := mem_of_get? hget
    have hown : ∀ l ∈ s.links, l.1 = t.id → l = t.link := by
      intro l hl hid
      obtain ⟨u, hu, rfl⟩ := List.mem_map.1 hl
      rw [List.inj_on_of_nodup_map hs hu ht hid]
    have hparent : (if t.parent = some r then s.modify t.id Process.leaveParent else s).links =
        s.links.map fun l =>
          if l.1 = t.id then (l.1, if t.parent = some r then none else l.2.1, l.2.2) else l := by
      split
      · exact links_modify_map (g := fun l => (l.1, none, l.2.2)) fun _ => rfl
      · simp only [ite_self, List.map_id']
    split
    · rename_i hptracer
      rw [links_orphan_ptracer, hparent, List.map_map]
      apply List.map_congr_left
      intro l hl
      rw [Function.comp_apply]
      by_cases hid : l.1 = t.id
      · rw [hown l hl hid]
        simp [cut, Process.link, hptracer]
      · simp only [if_neg hid]
    · rename_i hptracer
      rw [hparent]
      apply List.map_congr_left
      intro l hl
      by_cases hid : l.1 = t.id
      · rw [hown l hl hid]
        by_cases hp : t.parent = some r
        · simp [cut, Process.link, hptracer, hp]
        · simp [cut, Process.link, hptracer, hp]
      · simp only [if_neg hid]

theorem ids_orphan (hs : s.ids.Nodup) : (orphan r s id).ids = s.ids := by
  rw [ids_eq, links_orphan hs, List.map_map, ids_eq]
  apply List.map_congr_left
  intro l _
  rw [Function.comp_apply]
  split <;> rfl

/-- The collected tracees let go of the one that is removed. -/
theorem links_foldl_orphan (hs : s.ids.Nodup) (collected : List ℕ) :
    (collected.foldl (orphan r) s).links =
      s.links.map fun l => if l.1 ∈ collected then cut r l else l := by
  induction collected generalizing s with
  | nil => simp
  | cons id collected ih =>
    have hids : (orphan r s id).ids = s.ids := ids_orphan hs
    rw [List.foldl_cons, ih (by rw [hids]; exact hs), links_orphan hs, List.map_map]
    apply List.map_congr_left
    intro l _
    rw [Function.comp_apply]
    have hfst : (cut r l).1 = l.1 := rfl
    by_cases hid : l.1 = id
    · have hmem : l.1 ∈ id :: collected := by rw [hid]; exact List.mem_cons_self
      rw [if_pos hid, hfst, if_pos hmem, cut_cut, ite_self]
    · rw [if_neg hid]
      simp only [List.mem_cons, hid, false_or]

/-- The tracees other than one. -/
def others (s : Population) (id : ℕ) : List Process := s.tracees.filter (·.id ≠ id)

/-- The tracees that `remove_tracee` collects. -/
def pointing (s : Population) (id : ℕ) : List Process :=
  batch (fun t => decide (t.Refers id)) 256 (s.others id)

theorem ids_others (s : Population) (id : ℕ) :
    (s.others id).map (·.id) = s.ids.filter (· ≠ id) := by
  rw [others, ids, List.filter_map]
  rfl

theorem nodup_others (hs : s.ids.Nodup) (id : ℕ) : ((s.others id).map (·.id)).Nodup := by
  rw [ids_others]
  exact hs.filter _

/-- What `remove_tracee` does to numbers and pointers. -/
theorem links_removeTracee (hs : s.ids.Nodup) (u : Process) :
    (s.removeTracee u).links = ((s.others u.id).map Process.link).map fun l =>
      if l.1 ∈ (s.pointing u.id).map (·.id) then cut u.id l else l := by
  have hfold : (((s.pointing u.id).map (·.id)).foldl (orphan u.id)
      { s with tracees := s.others u.id }).links = ((s.others u.id).map Process.link).map fun l =>
      if l.1 ∈ (s.pointing u.id).map (·.id) then cut u.id l else l :=
    links_foldl_orphan (s := { s with tracees := s.others u.id }) (nodup_others hs u.id) _
  unfold removeTracee
  cases u.ptracer with
  | none => exact hfold
  | some ptracer => exact (links_leavePtracer u ptracer).trans hfold

theorem ids_removeTracee (hs : s.ids.Nodup) (u : Process) :
    (s.removeTracee u).ids = s.ids.filter (· ≠ u.id) := by
  rw [ids_eq, links_removeTracee hs, List.map_map, List.map_map, ← ids_others]
  apply List.map_congr_left
  intro v _
  simp only [Function.comp_apply]
  split <;> rfl

/-- After `remove_tracee` nothing points at the tracee exactly when not too many did. -/
theorem released_removeTracee_iff (hs : s.ids.Nodup) (u : Process) :
    (∀ t ∈ (s.removeTracee u).tracees, ¬ t.Refers u.id) ↔
      (s.others u.id).countP (fun t => decide (t.Refers u.id)) ≤ 256 := by
  have hids := nodup_others hs u.id
  have hlinks : (∀ t ∈ (s.removeTracee u).tracees, ¬ t.Refers u.id) ↔
      ∀ l ∈ (s.removeTracee u).links, ¬ Leads u.id l := by
    rw [links, List.forall_mem_map]
    rfl
  rw [hlinks, links_removeTracee hs, List.map_map, List.forall_mem_map,
    ← forall_mem_batch_iff hids.of_map]
  constructor
  · intro hnone t ht hrefers
    have hleads : ¬ Leads u.id
      (if t.id ∈ (s.pointing u.id).map (·.id) then cut u.id t.link else t.link) := hnone t ht
    by_cases hmem : t.id ∈ (s.pointing u.id).map (·.id)
    · obtain ⟨v, hv, hid⟩ := List.mem_map.1 hmem
      rw [← List.inj_on_of_nodup_map hids (mem_of_mem_batch hv).1 ht hid]
      exact hv
    · rw [if_neg hmem] at hleads
      exact absurd (of_decide_eq_true hrefers) hleads
  · intro hall t ht
    rw [Function.comp_apply]
    split
    · exact not_leads_cut u.id _
    · rename_i hmem
      intro hleads
      exact hmem (List.mem_map_of_mem (hall t ht (decide_eq_true hleads)))

/-! ### Freeing and killing -/

theorem ids_detachFromPtracer (t : Process) : (s.detachFromPtracer t).ids = s.ids := by
  have hleave : (s.modify t.id Process.leavePtracer).ids = s.ids := by
    rw [ids_eq, links_modify_map (g := fun l => (l.1, l.2.1, none)) fun _ => rfl, List.map_map,
      ids_eq]
    apply List.map_congr_left
    intro l _
    rw [Function.comp_apply]
    split <;> rfl
  unfold detachFromPtracer
  cases t.ptracer with
  | none => exact hleave
  | some ptracer => exact (ids_of_links (links_dropPtracee ptracer)).trans hleave

theorem ids_foldl_detachFromPtracer (ts : List Process) :
    (ts.foldl detachFromPtracer s).ids = s.ids := by
  induction ts generalizing s with
  | nil => rfl
  | cons t ts ih => rw [List.foldl_cons, ih, ids_detachFromPtracer]

/-- `free_terminated_tracees` frees a tracee that it has collected, and no other. -/
theorem ids_freeTracee (hs : s.ids.Nodup) : (s.freeTracee id).ids = s.ids.filter (· ≠ id) := by
  have hnone : id ∉ s.ids → s.ids.filter (· ≠ id) = s.ids := by
    intro hnot
    apply List.filter_eq_self.2
    intro v hv
    rw [decide_eq_true_iff]
    rintro rfl
    exact hnot hv
  unfold freeTracee
  split
  · rename_i hget
    exact (hnone (get?_eq_none_iff.1 hget)).symm
  · rename_i t hget
    simp only
    have hdetached : ∀ u : Population, u.ids = s.ids →
        (match u.get? id with
          | none => u
          | some t => u.removeTracee t).ids = s.ids.filter (· ≠ id) := by
      intro u hu
      cases hagain : u.get? id with
      | none =>
        rw [get?_eq_none_iff, hu] at hagain
        exact hu.trans (hnone hagain).symm
      | some v =>
        have hid := (mem_of_get? hagain).2
        simp only
        rw [ids_removeTracee (by rw [hu]; exact hs), hu, hid]
    apply hdetached
    split
    · exact ids_foldl_detachFromPtracer _
    · rfl

theorem ids_foldl_freeTracee (hs : s.ids.Nodup) (collected : List ℕ) :
    (collected.foldl freeTracee s).ids = s.ids.filter (· ∉ collected) := by
  induction collected generalizing s with
  | nil => simp
  | cons id collected ih =>
    have hfree : (s.freeTracee id).ids = s.ids.filter (· ≠ id) := ids_freeTracee hs
    rw [List.foldl_cons, ih (by rw [hfree]; exact hs.filter _), hfree, List.filter_filter]
    apply List.filter_congr
    intro v _
    simp only [List.mem_cons, not_or, ne_eq, ← Bool.decide_and]
    rw [decide_eq_decide, and_comm]

/-- `free_terminated_tracees` frees all that are marked exactly when there are not too many and
it is told so. -/
theorem freed_iff (hs : s.ids.Nodup) :
    (∀ t ∈ s.tracees, t.terminated = true → t.id ∉ s.freeTerminatedTracees.ids) ↔
      (∀ t ∈ s.tracees, t.terminated = false) ∨
        s.hasTerminatedTracees = true ∧ s.tracees.countP (·.terminated) ≤ 256 := by
  have hmem : ∀ t ∈ s.tracees, t.id ∈ s.ids := fun t ht => List.mem_map_of_mem ht
  unfold freeTerminatedTracees
  by_cases hflag : s.hasTerminatedTracees = true
  · rw [if_pos hflag, ids_foldl_freeTracee (s := { s with hasTerminatedTracees := false }) hs,
      ← forall_mem_batch_iff hs.of_map]
    constructor
    · intro hfreed
      refine .inr ⟨hflag, fun t ht hterminated => ?_⟩
      have hout := hfreed t ht hterminated
      rw [List.mem_filter, not_and, decide_eq_true_iff, not_not] at hout
      obtain ⟨v, hv, hid⟩ := List.mem_map.1 (hout (hmem t ht))
      rw [← List.inj_on_of_nodup_map hs (mem_of_mem_batch hv).1 ht hid]
      exact hv
    · intro hall t ht hterminated
      obtain hnone | ⟨-, hcollected⟩ := hall
      · rw [hnone t ht] at hterminated
        cases hterminated
      · rw [List.mem_filter, not_and, decide_eq_true_iff, not_not]
        intro _
        exact List.mem_map_of_mem (hcollected t ht hterminated)
  · rw [if_neg hflag]
    constructor
    · intro hfreed
      refine .inl fun t ht => ?_
      rw [← Bool.not_eq_true]
      intro hterminated
      exact hfreed t ht hterminated (hmem t ht)
    · intro hall t ht hterminated
      obtain hnone | ⟨htold, -⟩ := hall
      · rw [hnone t ht] at hterminated
        cases hterminated
      · exact absurd htold hflag

/-- `kill_all_tracees` reaches all tracees exactly when there are not too many and it is not
being called already. -/
theorem killed_iff (hs : s.WellFormed) :
    (∀ t ∈ s.tracees, t.pid ∈ { s with killed := [] }.killAllTracees.killed) ↔
      s.tracees = [] ∨ s.signalInProgress = false ∧ s.tracees.length ≤ 512 := by
  unfold killAllTracees
  by_cases hprogress : s.signalInProgress = true
  · rw [if_pos hprogress, hprogress]
    simp only [List.not_mem_nil, Bool.true_eq_false, false_and, or_false]
    exact List.eq_nil_iff_forall_not_mem.symm
  · rw [if_neg hprogress, List.append_nil]
    have hall := forall_mem_batch_iff (p := fun _ : Process => true) (n := 512) hs.ids.of_map
    simp only [batch, List.filter_true, List.countP_true, true_implies] at hall
    have hpid : ∀ t ∈ s.tracees, (t.pid ∈ ((s.tracees.take 512).map (·.pid)).filter (0 < ·) ↔
        t ∈ s.tracees.take 512) := by
      intro t ht
      rw [List.mem_filter, decide_eq_true_iff, and_iff_left (hs.running t ht), List.mem_map]
      constructor
      · rintro ⟨v, hv, hsame⟩
        rw [← List.inj_on_of_nodup_map hs.pids (List.mem_of_mem_take hv) ht hsame]
        exact hv
      · intro hv
        exact ⟨t, hv, rfl⟩
    rw [Bool.not_eq_true] at hprogress
    rw [forall₂_congr hpid, hall]
    constructor
    · intro hle
      exact .inr ⟨hprogress, hle⟩
    · rintro (hnil | ⟨-, hle⟩)
      · rw [hnil]
        exact Nat.zero_le _
      · exact hle

/-- Every tracee lets go of one that is removed, is freed if it was marked, and is killed with the
others, exactly when there are not too many of them at a time, the mark is not forgotten, and the
walk that kills is not under way. -/
theorem removal_complete_iff (hs : s.WellFormed) (u : Process) :
    ((∀ t ∈ (s.removeTracee u).tracees, ¬ t.Refers u.id) ∧
      (∀ t ∈ s.tracees, t.terminated = true → t.id ∉ s.freeTerminatedTracees.ids) ∧
      (∀ t ∈ s.tracees, t.pid ∈ { s with killed := [] }.killAllTracees.killed)) ↔
    (s.others u.id).countP (fun t => decide (t.Refers u.id)) ≤ 256 ∧
      ((∀ t ∈ s.tracees, t.terminated = false) ∨
        s.hasTerminatedTracees = true ∧ s.tracees.countP (·.terminated) ≤ 256) ∧
      (s.tracees = [] ∨ s.signalInProgress = false ∧ s.tracees.length ≤ 512) :=
  and_congr (released_removeTracee_iff hs.ids u) (and_congr (freed_iff hs.ids) (killed_iff hs))

/-- A tracee with a number, and a pid one higher, that nobody traces. -/
def untraced (id : ℕ) (parent : Option ℕ) : Process :=
  ⟨id, id + 1, parent, false, true, false, false, 0, [], 0, 0, .doesntWait, none, none, none, false⟩

/-- A tracee with so many children. -/
def crowd (n : ℕ) : Population :=
  ⟨untraced 0 none :: (List.range n).map fun i => untraced (i + 1) (some 0), false, false, [], [],
    false⟩

theorem wellFormed_crowd (n : ℕ) : (crowd n).WellFormed := by
  have hids : (crowd n).ids = List.range (n + 1) := by
    rw [List.range_succ_eq_map]
    simp [ids, crowd, untraced, Function.comp_def]
  refine ⟨?_, ?_, ?_⟩
  · rw [hids]
    exact List.nodup_range
  · have hpids : (crowd n).tracees.map (·.pid) = (crowd n).ids.map (· + 1) := by
      simp [ids, crowd, untraced, Function.comp_def]
    rw [hpids, hids]
    exact List.nodup_range.map fun _ _ hsame => Nat.succ.inj hsame
  · intro t ht
    have hpid : t.pid = t.id + 1 := by
      obtain rfl | ht := List.mem_cons.1 ht
      · rfl
      · obtain ⟨i, -, rfl⟩ := List.mem_map.1 ht
        rfl
    omega

/-- One child is let go of, freed and killed with its parent. -/
theorem removal_complete_crowd_one :
    ((∀ t ∈ ((crowd 1).removeTracee (untraced 0 none)).tracees, ¬ t.Refers 0) ∧
      (∀ t ∈ (crowd 1).tracees, t.terminated = true → t.id ∉ (crowd 1).freeTerminatedTracees.ids) ∧
      (∀ t ∈ (crowd 1).tracees, t.pid ∈ { crowd 1 with killed := [] }.killAllTracees.killed)) ↔
    ((crowd 1).others 0).countP (fun t => decide (t.Refers 0)) ≤ 256 ∧
      ((∀ t ∈ (crowd 1).tracees, t.terminated = false) ∨
        (crowd 1).hasTerminatedTracees = true ∧ (crowd 1).tracees.countP (·.terminated) ≤ 256) ∧
      ((crowd 1).tracees = [] ∨
        (crowd 1).signalInProgress = false ∧ (crowd 1).tracees.length ≤ 512) :=
  removal_complete_iff (wellFormed_crowd 1) (untraced 0 none)

/-- The last of 257 children keeps a pointer to its parent. -/
theorem crowd_not_released :
    ¬ ∀ (s : Population) (u : Process), s.WellFormed →
      (∀ t ∈ (s.removeTracee u).tracees, ¬ t.Refers u.id) ∧
        (∀ t ∈ s.tracees, t.terminated = true → t.id ∉ s.freeTerminatedTracees.ids) ∧
        (∀ t ∈ s.tracees, t.pid ∈ { s with killed := [] }.killAllTracees.killed) := by
  intro h
  have hreleased := (h (crowd 257) (untraced 0 none) (wellFormed_crowd 257)).1
  rw [released_removeTracee_iff (wellFormed_crowd 257).ids] at hreleased
  exact absurd hreleased (by decide +kernel)

end Population

end NeoProot.Ptrace
