import Mathlib.Data.Set.Basic
import Mathlib.Tactic.Ring
import NeoProot.Tracee.Ptrace

/-!
# The books of the ptracers

The counter of a ptracer goes up and down in many places.  So each change of a tracee is given the
debt it leaves to each counter, and an operation pays what it runs up.

## Main definitions

* `Population.debt` — what is owed to a tracee when another one is changed.
* `Population.Plain`, `Population.Calm` — the changes that are not in the books.
* `Population.Keeps`, `Population.Good` — who still waits, and an operation that keeps the books.
-/

namespace NeoProot.Ptrace.Population

variable {z : Zombie} {c p : Process}

/-! ### A tracee is changed -/

section Modify

variable {s : Population} {t : Process} {f : Process → Process} {d : ℕ → ℤ} {id x : ℕ}

theorem countP_map_update {l : List Process} (hl : (l.map (·.id)).Nodup) (ht : t ∈ l)
    (f : Process → Process) (q : Process → Bool) :
    (l.map fun u => if u.id = t.id then f u else u).countP q + (if q t then 1 else 0) =
      l.countP q + if q (f t) then 1 else 0 := by
  induction l with
  | nil => cases ht
  | cons u l ih =>
    rw [List.map_cons, List.nodup_cons] at hl
    rw [List.map_cons, List.countP_cons, List.countP_cons]
    by_cases hut : u.id = t.id
    · have hu : u = t := by
        obtain rfl | hmem := List.mem_cons.1 ht
        · rfl
        · exact absurd (hut ▸ List.mem_map_of_mem hmem) hl.1
      have hrest : (l.map fun v => if v.id = t.id then f v else v) = l := by
        have hsame : ∀ v ∈ l, (if v.id = t.id then f v else v) = v := by
          intro v hv
          rw [if_neg]
          intro hvt
          apply hl.1
          rw [hut, ← hvt]
          exact List.mem_map_of_mem hv
        rw [List.map_congr_left hsame, List.map_id']
      rw [hrest, if_pos hut, hu]
      omega
    · have hmem : t ∈ l := by
        obtain rfl | hmem := List.mem_cons.1 ht
        · exact absurd rfl hut
        · exact hmem
      have := ih hl.2 hmem
      rw [if_neg hut]
      omega

theorem ptracees_modify (hs : s.ids.Nodup) (ht : t ∈ s.tracees) (x : ℕ) :
    (s.modify t.id f).ptracees x + (if t.ptracer = some x then 1 else 0) =
      s.ptracees x + if (f t).ptracer = some x then 1 else 0 := by
  have hcount := countP_map_update hs ht f fun u => decide (u.ptracer = some x)
  simp only [decide_eq_true_eq] at hcount
  exact hcount

theorem ids_modify (hf : ∀ u, (f u).id = u.id) : (s.modify id f).ids = s.ids := by
  simp only [ids, modify, List.map_map]
  apply List.map_congr_left
  intro u _
  rw [Function.comp_apply]
  split
  · exact hf u
  · rfl

theorem mem_modify (hs : s.ids.Nodup) (ht : t ∈ s.tracees) {u : Process}
    (hu : u ∈ (s.modify t.id f).tracees) : u = f t ∨ u ∈ s.tracees ∧ u.id ≠ t.id := by
  obtain ⟨v, hv, rfl⟩ := List.mem_map.1 hu
  by_cases hid : v.id = t.id
  · rw [if_pos hid, List.inj_on_of_nodup_map hs hv ht hid]
    exact .inl rfl
  · rw [if_neg hid]
    exact .inr ⟨hv, hid⟩

theorem modify_eq_self (h : id ∉ s.ids) : s.modify id f = s := by
  have hsame : ∀ v ∈ s.tracees, (if v.id = id then f v else v) = v := by
    intro v hv
    rw [if_neg]
    rintro rfl
    exact h (List.mem_map_of_mem hv)
  rw [modify, List.map_congr_left hsame, List.map_id']

theorem get?_modify (hf : ∀ u, (f u).id = u.id) (i : ℕ) :
    (s.modify id f).get? i = (s.get? i).map fun u => if u.id = id then f u else u := by
  simp only [get?, modify, List.find?_map]
  congr 2
  funext u
  rw [Function.comp_apply]
  split
  · rw [hf]
  · rfl

theorem Balanced.congr {d' : ℕ → ℤ} (h : s.Balanced d) (hd : ∀ y ∈ s.ids, d y = d' y) :
    s.Balanced d' := by
  intro p hp
  rw [h p hp, hd _ (List.mem_map_of_mem hp)]

/-- What is owed to a tracee when another one is changed, and when it is changed itself. -/
def debt (t t' : Process) (y : ℕ) : ℤ :=
  (if y = t.id then (t'.nbPtracees : ℤ) - t.nbPtracees - (t'.zombies.length - t.zombies.length)
    else 0) + (if t.ptracer = some y then 1 else 0) - if t'.ptracer = some y then 1 else 0

theorem debt_of_ptracer_eq (t t' : Process) (hptracer : t'.ptracer = t.ptracer) (y : ℕ) :
    debt t t' y = if y = t.id then
      (t'.nbPtracees : ℤ) - t.nbPtracees - (t'.zombies.length - t.zombies.length) else 0 := by
  rw [debt, hptracer]
  ring

theorem Balanced.modify (hs : s.ids.Nodup) (h : s.Balanced d) (ht : t ∈ s.tracees)
    (hf : (f t).id = t.id) : (s.modify t.id f).Balanced fun y => d y + debt t (f t) y := by
  intro p hp
  have hcount := ptracees_modify (f := f) hs ht p.id
  obtain rfl | ⟨hold, hne⟩ := mem_modify hs ht hp
  · have hbal := h t ht
    rw [hf] at hcount ⊢
    simp only [debt, if_true]
    split_ifs at hcount ⊢ <;> omega
  · have hbal := h p hold
    simp only [debt]
    rw [if_neg hne]
    split_ifs at hcount ⊢ <;> omega

/-- A tracee is changed in a ledger. -/
theorem Ledger.modify (h : s.Ledger d) (ht : t ∈ s.tracees) (hf : ∀ u, (f u).id = u.id)
    (hclosed : ∀ x, (f t).ptracer = some x → x ∈ s.ids ∧ x ≠ t.id) :
    (s.modify t.id f).Ledger fun y => d y + debt t (f t) y := by
  refine ⟨?_, h.balanced.modify h.ids ht (hf t), ?_, h.unfaulted⟩
  · rw [ids_modify hf]
    exact h.ids
  · intro u hu y hy
    rw [ids_modify hf]
    obtain rfl | ⟨hold, -⟩ := mem_modify h.ids ht hu
    · rw [hf]
      exact hclosed y hy
    · exact h.closed u hold y hy

theorem Ledger.congr {d' : ℕ → ℤ} (h : s.Ledger d) (hd : ∀ y ∈ s.ids, d y = d' y) : s.Ledger d' :=
  ⟨h.ids, h.balanced.congr hd, h.closed, h.unfaulted⟩

/-- The update changes nothing that is in the books. -/
structure Plain (f : Process → Process) : Prop where
  id : ∀ u, (f u).id = u.id
  ptracer : ∀ u, (f u).ptracer = u.ptracer
  nbPtracees : ∀ u, (f u).nbPtracees = u.nbPtracees
  zombies : ∀ u, (f u).zombies = u.zombies

theorem Ledger.plain (h : s.Ledger d) (hf : Plain f) (id : ℕ) : (s.modify id f).Ledger d := by
  by_cases hid : id ∈ s.ids
  · obtain ⟨t, ht, rfl⟩ := List.mem_map.1 hid
    have hnext := h.modify ht hf.id fun x hx => h.closed t ht x ((hf.ptracer t).symm.trans hx)
    refine hnext.congr fun y _ => ?_
    rw [debt_of_ptracer_eq t _ (hf.ptracer t), hf.nbPtracees, hf.zombies]
    split_ifs <;> ring
  · rw [modify_eq_self hid]
    exact h

/-- One more for one tracee. -/
def delta (x y : ℕ) : ℤ := if y = x then 1 else 0

theorem Ledger.leave (h : s.Ledger d) (ht : t ∈ s.tracees) (hx : t.ptracer = some x) :
    (s.modify t.id Process.leavePtracer).Ledger fun y => d y + delta x y := by
  have hnext := h.modify (f := Process.leavePtracer) ht (fun _ => rfl) fun _ hnone => by cases hnone
  refine hnext.congr fun y _ => ?_
  simp only [debt, Process.leavePtracer, hx, Option.some.injEq, reduceCtorEq, if_false, delta,
    sub_self, ite_self, zero_add, sub_zero, eq_comm]

theorem Ledger.join (h : s.Ledger d) (ht : t ∈ s.tracees) (hx : x ∈ s.ids) (hne : x ≠ t.id) :
    (s.modify t.id (Process.joinPtracer x)).Ledger fun y =>
      d y + (if t.ptracer = some y then 1 else 0) - delta x y := by
  have hnext := h.modify (f := Process.joinPtracer x) ht (fun _ => rfl) fun y hy => by
    cases hy
    exact ⟨hx, hne⟩
  refine hnext.congr fun y _ => ?_
  simp only [debt, Process.joinPtracer, Process.clearPtracee, Option.some.injEq, delta, sub_self,
    ite_self, zero_add, eq_comm]
  ring

theorem Ledger.lose (h : s.Ledger d) (ht : t ∈ s.tracees) (hpos : 0 < t.nbPtracees) :
    (s.modify t.id Process.losePtracee).Ledger fun y => d y - delta t.id y := by
  have hnext := h.modify (f := Process.losePtracee) ht (fun _ => rfl) (h.closed t ht)
  refine hnext.congr fun y _ => ?_
  have hcast : ((t.nbPtracees - 1 : ℕ) : ℤ) = t.nbPtracees - 1 := by omega
  rw [debt_of_ptracer_eq t t.losePtracee rfl, delta]
  simp only [Process.losePtracee, hcast]
  split_ifs <;> ring

theorem Ledger.gain (h : s.Ledger d) (ht : t ∈ s.tracees) :
    (s.modify t.id Process.gainPtracee).Ledger fun y => d y + delta t.id y := by
  have hnext := h.modify (f := Process.gainPtracee) ht (fun _ => rfl) (h.closed t ht)
  refine hnext.congr fun y _ => ?_
  rw [debt_of_ptracer_eq t t.gainPtracee rfl, delta]
  simp only [Process.gainPtracee, Nat.cast_add, Nat.cast_one]
  split_ifs <;> ring

theorem Ledger.keep (h : s.Ledger d) (ht : t ∈ s.tracees) (z : Zombie) :
    (s.modify t.id (Process.keepZombie z)).Ledger fun y => d y - delta t.id y := by
  have hnext := h.modify (f := Process.keepZombie z) ht (fun _ => rfl) (h.closed t ht)
  refine hnext.congr fun y _ => ?_
  rw [debt_of_ptracer_eq t (.keepZombie z t) rfl, delta]
  simp only [Process.keepZombie, List.length_cons, Nat.cast_add, Nat.cast_one]
  split_ifs <;> ring

theorem Ledger.bury (h : s.Ledger d) (ht : t ∈ s.tracees) (hz : z ∈ t.zombies) :
    (s.modify t.id (Process.buryZombie z)).Ledger fun y => d y + delta t.id y := by
  have hnext := h.modify (f := Process.buryZombie z) ht (fun _ => rfl) (h.closed t ht)
  refine hnext.congr fun y _ => ?_
  have hpos := List.length_pos_of_mem hz
  have hcast : (((t.zombies.erase z).length : ℕ) : ℤ) = t.zombies.length - 1 := by
    rw [List.length_erase_of_mem hz]
    omega
  rw [debt_of_ptracer_eq t (.buryZombie z t) rfl, delta]
  simp only [Process.buryZombie, hcast]
  split_ifs <;> ring

/-- What the ptracer's counter has to be lowered by can be taken off. -/
theorem Ledger.dropPtracee (h : s.Ledger d) (hp : p ∈ s.tracees) (hpos : 0 < p.nbPtracees) :
    s.dropPtracee p.id = s.modify p.id Process.losePtracee ∧
      (s.dropPtracee p.id).Ledger fun y => d y - delta p.id y := by
  have heq : s.dropPtracee p.id = s.modify p.id Process.losePtracee := by
    simp only [Population.dropPtracee, get?_of_mem h.ids hp, if_pos hpos]
  rw [heq]
  exact ⟨rfl, h.lose hp hpos⟩

theorem Ledger.same {s' : Population} (h : s.Ledger d) (htracees : s'.tracees = s.tracees)
    (hfaulted : s'.faulted = s.faulted) : s'.Ledger d := by
  have hids : s'.ids = s.ids := by rw [Population.ids, Population.ids, htracees]
  refine ⟨hids ▸ h.ids, ?_, ?_, hfaulted.trans h.unfaulted⟩
  · intro p hp
    rw [htracees] at hp
    rw [h.balanced p hp, ptracees, ptracees, htracees]
  · intro u hu y hy
    rw [htracees] at hu
    rw [hids]
    exact h.closed u hu y hy

/-- A ptracee is detached, which leaves no debt. -/
theorem Ledger.detach (h : s.Ledger d) (ht : t ∈ s.tracees) (hx : t.ptracer = some x)
    (hd : 0 ≤ d x) :
    s.detachFromPtracer t =
        (s.modify t.id Process.leavePtracer).modify x Process.losePtracee ∧
      (s.detachFromPtracer t).Ledger d := by
  have hleave := h.leave ht hx
  have hids : (s.modify t.id Process.leavePtracer).ids = s.ids := ids_modify fun _ => rfl
  obtain ⟨p, hp, rfl⟩ : ∃ p ∈ (s.modify t.id Process.leavePtracer).tracees, p.id = x := by
    have hmem := (h.closed t ht x hx).1
    rw [← hids] at hmem
    exact List.mem_map.1 hmem
  have hpos : 0 < p.nbPtracees := by
    have hbal := hleave.balanced p hp
    simp only [delta, if_true] at hbal
    omega
  obtain ⟨heq, hdrop⟩ := hleave.dropPtracee hp hpos
  have hdetach : s.detachFromPtracer t =
      (s.modify t.id Process.leavePtracer).dropPtracee p.id := by
    simp only [detachFromPtracer, hx]
  rw [hdetach]
  refine ⟨heq, hdrop.congr fun y _ => ?_⟩
  ring

/-- A tracee gets a ptracer; if it had another one, that one is still owed. -/
theorem Ledger.attach (h : s.Ledger d) (ht : t ∈ s.tracees) (hx : x ∈ s.ids) (hne : x ≠ t.id) :
    s.attachToPtracer t x =
        (s.modify t.id (Process.joinPtracer x)).modify x Process.gainPtracee ∧
      (s.attachToPtracer t x).Ledger fun y => d y + if t.ptracer = some y then 1 else 0 := by
  have hjoin := h.join ht hx hne
  have hids : (s.modify t.id (Process.joinPtracer x)).ids = s.ids := ids_modify fun _ => rfl
  obtain ⟨p, hp, rfl⟩ : ∃ p ∈ (s.modify t.id (Process.joinPtracer x)).tracees, p.id = x := by
    rw [← hids] at hx
    exact List.mem_map.1 hx
  have hattach : s.attachToPtracer t p.id =
      (s.modify t.id (Process.joinPtracer p.id)).modify p.id Process.gainPtracee := by
    simp only [attachToPtracer, get?_of_mem hjoin.ids hp]
  rw [hattach]
  refine ⟨rfl, (hjoin.gain hp).congr fun y _ => ?_⟩
  ring

/-! ### Who waits -/

/-- The update leaves alone what a tracee waits for. -/
def Quiet (f : Process → Process) : Prop := ∀ u, (f u).waitPid = u.waitPid

/-- The update is about neither ptracers nor waits. -/
def Calm (f : Process → Process) : Prop :=
  ∀ u, (f u).id = u.id ∧ (f u).ptracer = u.ptracer ∧ (f u).nbPtracees = u.nbPtracees ∧
    (f u).zombies = u.zombies ∧ (f u).waitPid = u.waitPid

theorem Calm.plain (hf : Calm f) : Plain f :=
  ⟨fun u => (hf u).1, fun u => (hf u).2.1, fun u => (hf u).2.2.1, fun u => (hf u).2.2.2.1⟩

theorem Calm.quiet (hf : Calm f) : Quiet f := fun u => (hf u).2.2.2.2

theorem calm_terminate : Calm Process.terminate := fun _ => ⟨rfl, rfl, rfl, rfl, rfl⟩

theorem calm_waitIn (w : WaitsIn) : Calm (Process.waitIn w) := fun _ => ⟨rfl, rfl, rfl, rfl, rfl⟩

theorem calm_told : Calm Process.told := fun _ => ⟨rfl, rfl, rfl, rfl, rfl⟩

theorem calm_putOff (event : Option EventKind) : Calm (Process.putOff event) :=
  fun _ => ⟨rfl, rfl, rfl, rfl, rfl⟩

theorem calm_tell (kind : EventKind) : Calm (Process.tell kind) :=
  fun _ => ⟨rfl, rfl, rfl, rfl, rfl⟩

theorem calm_startTracing : Calm Process.startTracing := fun _ => ⟨rfl, rfl, rfl, rfl, rfl⟩

theorem calm_stop : Calm Process.stop := fun _ => ⟨rfl, rfl, rfl, rfl, rfl⟩

theorem calm_adopt (parent : Option ℕ) (clone : Bool) : Calm (Process.adopt parent clone) :=
  fun _ => ⟨rfl, rfl, rfl, rfl, rfl⟩

theorem calm_restart : Calm Process.restart := by
  intro u
  unfold Process.restart
  split <;> exact ⟨rfl, rfl, rfl, rfl, rfl⟩

theorem calm_handled : Calm Process.handled := by
  intro u
  unfold Process.handled
  split <;> exact ⟨rfl, rfl, rfl, rfl, rfl⟩

theorem plain_wake : Plain Process.wake := by
  constructor <;> intro u
  · exact calm_restart.plain.id _
  · exact calm_restart.plain.ptracer _
  · exact calm_restart.plain.nbPtracees _
  · exact calm_restart.plain.zombies _

/-- No tracee but perhaps `x` waits for a ptracee when it has none. -/
def WaitingBut (x : Option ℕ) (s : Population) : Prop :=
  ∀ p ∈ s.tracees, some p.id ≠ x → p.waitPid ≠ 0 → 0 < p.nbPtracees

theorem waitingBut_none : WaitingBut none s ↔ s.Waiting := by
  constructor
  · intro h p hp
    exact h p hp (by simp)
  · intro h p hp _
    exact h p hp

theorem WaitingBut.modify {y : Option ℕ} (h : WaitingBut y s) (hid : ∀ u, (f u).id = u.id)
    (hf : ∀ u ∈ s.tracees, u.id = id → some id ≠ y → (f u).waitPid ≠ 0 →
      (f u).waitPid = u.waitPid ∧ u.nbPtracees ≤ (f u).nbPtracees ∨ 0 < (f u).nbPtracees) :
    WaitingBut y (s.modify id f) := by
  intro p hp hne hwait
  obtain ⟨u, hu, rfl⟩ := List.mem_map.1 hp
  by_cases hui : u.id = id
  · rw [if_pos hui] at hne hwait ⊢
    rw [hid, hui] at hne
    obtain ⟨hsame, hle⟩ | hpos := hf u hu hui hne hwait
    · have := h u hu (hui ▸ hne) (hsame ▸ hwait)
      omega
    · exact hpos
  · rw [if_neg hui] at hne hwait ⊢
    exact h u hu hne hwait

/-- The tracees outside of `W` that wait in PRoot wait for the same as before. -/
def Keeps (W : Set ℕ) (s s' : Population) : Prop :=
  ∀ i ∉ W, ∀ p ∈ s.get? i, p.waitPid ≠ 0 → ∃ p' ∈ s'.get? i, p'.waitPid = p.waitPid

theorem Keeps.refl (W : Set ℕ) (s : Population) : Keeps W s s := fun _ _ p hp _ => ⟨p, hp, rfl⟩

theorem Keeps.modify {W : Set ℕ} {s' : Population} (h : Keeps W s s') (hid : ∀ u, (f u).id = u.id)
    (hf : id ∉ W → ∀ u ∈ s'.get? id, u.waitPid ≠ 0 → (f u).waitPid = u.waitPid) :
    Keeps W s (s'.modify id f) := by
  intro i hi p hp hwait
  obtain ⟨p', hp', hsame⟩ := h i hi p hp hwait
  rw [get?_modify hid, hp', Option.map_some]
  refine ⟨_, rfl, ?_⟩
  split
  · rename_i hpi
    obtain rfl : i = id := (mem_of_get? hp').2.symm.trans hpi
    rw [hf hi p' hp' (hsame ▸ hwait), hsame]
  · exact hsame

theorem Keeps.quiet {W : Set ℕ} {s' : Population} (h : Keeps W s s') (hid : ∀ u, (f u).id = u.id)
    (hq : Quiet f) : Keeps W s (s'.modify id f) :=
  h.modify hid fun _ u _ _ => hq u

/-- From `s` on the books are right in `s'`, and the tracees that wait outside of `W` still do. -/
structure Good (W : Set ℕ) (s s' : Population) : Prop where
  sound : s'.Sound
  keeps : Keeps W s s'
  echild : s'.echild = s.echild

variable {W : Set ℕ} {s' : Population}

theorem Good.refl (h : s.Sound) : Good W s s := ⟨h, .refl W s, rfl⟩

theorem Good.ids (h : Good W s s') : s'.ids.Nodup := h.sound.ledger.ids

theorem Good.calm (h : Good W s s') (hf : Calm f) (id : ℕ) : Good W s (s'.modify id f) := by
  refine ⟨⟨h.sound.ledger.plain hf.plain id, ?_⟩, h.keeps.quiet hf.plain.id hf.quiet, h.echild⟩
  rw [← waitingBut_none] at *
  refine WaitingBut.modify (waitingBut_none.2 h.sound.waiting) hf.plain.id fun u _ _ _ _ => ?_
  exact .inl ⟨hf.quiet u, (hf.plain.nbPtracees u).ge⟩

theorem Good.same {s'' : Population} (h : Good W s s') (htracees : s''.tracees = s'.tracees)
    (hfaulted : s''.faulted = s'.faulted) (hechild : s''.echild = s'.echild) : Good W s s'' := by
  refine ⟨⟨h.sound.ledger.same htracees hfaulted, ?_⟩, ?_, hechild.trans h.echild⟩
  · intro p hp
    rw [htracees] at hp
    exact h.sound.waiting p hp
  · intro i hi p hp hwait
    rw [get?, htracees]
    exact h.keeps i hi p hp hwait

/-- One more ptracee. -/
theorem Good.attach (h : Good W s s') (ht : t ∈ s'.tracees) (hnone : t.ptracer = none)
    (hx : x ∈ s'.ids) (hne : x ≠ t.id) : Good W s (s'.attachToPtracer t x) := by
  obtain ⟨heq, hledger⟩ := h.sound.ledger.attach ht hx hne
  have hzero : (s'.attachToPtracer t x).Ledger fun _ => 0 := by
    refine hledger.congr fun y _ => ?_
    rw [hnone, if_neg (by simp)]
    rfl
  refine ⟨⟨hzero, ?_⟩, ?_, ?_⟩
  · rw [heq, ← waitingBut_none]
    refine WaitingBut.modify (WaitingBut.modify (waitingBut_none.2 h.sound.waiting) (fun _ => rfl)
      fun u _ _ _ _ => .inl ⟨rfl, le_rfl⟩) (fun _ => rfl) fun u _ _ _ _ => ?_
    exact .inr (Nat.succ_pos _)
  · rw [heq]
    refine (h.keeps.quiet ?_ ?_).quiet ?_ ?_
    · exact fun _ => rfl
    · exact fun _ => rfl
    · exact fun _ => rfl
    · exact fun _ => rfl
  · rw [heq]
    exact h.echild

/-- One ptracee less, for a tracee that does not wait. -/
theorem Good.detach (h : Good W s s') (ht : t ∈ s'.tracees) (hx : t.ptracer = some x)
    (hwait : ∀ p ∈ s'.tracees, p.id = x → p.waitPid = 0) : Good W s (s'.detachFromPtracer t) := by
  obtain ⟨heq, hledger⟩ := h.sound.ledger.detach ht hx le_rfl
  refine ⟨⟨hledger, ?_⟩, ?_, ?_⟩
  · rw [heq, ← waitingBut_none]
    refine WaitingBut.modify (WaitingBut.modify (waitingBut_none.2 h.sound.waiting) (fun _ => rfl)
      fun u _ _ _ _ => .inl ⟨rfl, le_rfl⟩) (fun _ => rfl) fun u hu hid _ hnext => ?_
    obtain ⟨v, hv, rfl⟩ := List.mem_map.1 hu
    refine absurd (hwait v hv ?_) ?_
    · split at hid
      · exact hid
      · exact hid
    · split at hnext
      · exact hnext
      · exact hnext
  · rw [heq]
    refine (h.keeps.quiet ?_ ?_).quiet ?_ ?_
    · exact fun _ => rfl
    · exact fun _ => rfl
    · exact fun _ => rfl
    · exact fun _ => rfl
  · rw [heq]
    exact h.echild

theorem Good.killAllTracees (h : Good W s s') : Good W s s'.killAllTracees := by
  unfold Population.killAllTracees
  split
  · exact h
  · exact h.same rfl rfl rfl

theorem Good.handleTraceeEvent (h : Good W s s') (t : Process) (event : EventKind) :
    Good W s (s'.handleTraceeEvent t event) := by
  cases event with
  | stops => exact h.calm calm_handled t.id
  | ends =>
    have hmark : Good W s (s'.modify t.id Process.terminate) :=
      h.calm calm_terminate t.id
    have hflag : Good W s { s'.modify t.id Process.terminate with hasTerminatedTracees := true } :=
      hmark.same rfl rfl rfl
    simp only [Population.handleTraceeEvent, terminateTracee]
    split
    · exact h
    · split
      · exact hflag.killAllTracees
      · exact hflag

theorem Good.insert (h : Good W s s') (u : Process) (hid : u.id ∉ s'.ids)
    (hptracer : u.ptracer = none) (hnb : u.nbPtracees = 0) (hzombies : u.zombies = [])
    (hwait : u.waitPid = 0) : Good W s (s'.insert u) := by
  have hids : (s'.insert u).ids = u.id :: s'.ids := rfl
  have hcount : ∀ x, (s'.insert u).ptracees x = s'.ptracees x := by
    intro x
    simp only [ptracees, Population.insert, List.countP_cons, hptracer]
    simp
  refine ⟨⟨⟨?_, ?_, ?_, h.sound.ledger.unfaulted⟩, ?_⟩, ?_, h.echild⟩
  · rw [hids, List.nodup_cons]
    exact ⟨hid, h.ids⟩
  · intro p hp
    rw [hcount]
    obtain rfl | hp := List.mem_cons.1 hp
    · have hnone : s'.ptracees p.id = 0 := by
        rw [ptracees, List.countP_eq_zero]
        intro v hv hpoints
        exact hid (h.sound.ledger.closed v hv _ (of_decide_eq_true hpoints)).1
      rw [hnb, hnone, hzombies]
      rfl
    · exact h.sound.ledger.balanced p hp
  · intro p hp y hy
    obtain rfl | hp := List.mem_cons.1 hp
    · rw [hptracer] at hy
      cases hy
    · obtain ⟨hmem, hne⟩ := h.sound.ledger.closed p hp y hy
      exact ⟨List.mem_cons_of_mem _ hmem, hne⟩
  · intro p hp hne
    obtain rfl | hp := List.mem_cons.1 hp
    · exact absurd hwait hne
    · exact h.sound.waiting p hp hne
  · intro i hi p hp hne
    obtain ⟨p', hp', hsame⟩ := h.keeps i hi p hp hne
    refine ⟨p', ?_, hsame⟩
    have hpi := mem_of_get? hp'
    rw [Option.mem_def, get?, Population.insert, List.find?_cons_of_neg]
    · exact hp'
    · rw [beq_iff_eq]
      rintro rfl
      apply hid
      rw [← hpi.2]
      exact List.mem_map_of_mem hpi.1

/-- A zombie is collected, by a tracee that does not wait. -/
theorem Good.collect (h : Good W s s') (hp : p ∈ s'.tracees) (hwait : p.waitPid = 0)
    (hz : z ∈ p.zombies) : Good W s ((s'.dropPtracee p.id).modify p.id (Process.buryZombie z)) := by
  have hpos : 0 < p.nbPtracees := by
    have hbal := h.sound.ledger.balanced p hp
    have hlength := List.length_pos_of_mem hz
    omega
  obtain ⟨heq, hdrop⟩ := h.sound.ledger.dropPtracee hp hpos
  have hmem : p.losePtracee ∈ (s'.dropPtracee p.id).tracees := by
    rw [heq]
    exact List.mem_map.2 ⟨p, hp, if_pos rfl⟩
  have hbury := hdrop.bury hmem (z := z) hz
  have hzero : ((s'.dropPtracee p.id).modify p.id (Process.buryZombie z)).Ledger fun _ => 0 := by
    refine hbury.congr fun y _ => ?_
    have hid : p.losePtracee.id = p.id := rfl
    rw [hid]
    ring
  refine ⟨⟨hzero, ?_⟩, ?_, ?_⟩
  · rw [heq, ← waitingBut_none]
    have hactor : ∀ u ∈ s'.tracees, u.id = p.id → u.waitPid = 0 := by
      intro u hu hid
      rw [List.inj_on_of_nodup_map h.ids hu hp hid]
      exact hwait
    refine WaitingBut.modify (WaitingBut.modify (waitingBut_none.2 h.sound.waiting) (fun _ => rfl)
      fun u hu hid _ hnext => absurd (hactor u hu hid) hnext) (fun _ => rfl) fun u _ _ _ _ => ?_
    exact .inl ⟨rfl, le_rfl⟩
  · rw [heq]
    refine (h.keeps.quiet ?_ ?_).quiet ?_ ?_
    · exact fun _ => rfl
    · exact fun _ => rfl
    · exact fun _ => rfl
    · exact fun _ => rfl
  · rw [heq]
    exact h.echild

/-! ### Calls -/

theorem acting_spec {i : ℕ} (hp : s.acting i = some p) :
    p ∈ s.tracees ∧ p.id = i ∧ p.waitPid = 0 := by
  rw [acting, Option.filter_eq_some_iff] at hp
  obtain ⟨hmem, hid⟩ := mem_of_get? hp.1
  have hfree := (Bool.and_eq_true_iff.1 hp.2).2
  exact ⟨hmem, hid, beq_iff_eq.1 hfree⟩

/-- The tracee that a `wait` or a request finds is a ptracee. -/
theorem getStoppedPtracee_tracee {pid : ℤ} {pend : Bool} {options : ℕ}
    (h : s.getStoppedPtracee p pid pend options = some (.tracee t)) :
    t ∈ s.tracees ∧ t.ptracer = some p.id := by
  unfold getStoppedPtracee at h
  split at h
  · cases h
  · obtain ⟨u, hu, hsame⟩ := Option.map_eq_some_iff.1 h
    cases hsame
    have hfound := List.find?_some hu
    simp only [Bool.and_eq_true, decide_eq_true_eq] at hfound
    exact ⟨List.mem_of_find?_eq_some hu, hfound.1.1.1.1⟩

theorem getStoppedPtracee_zombie {pid : ℤ} {pend : Bool} {options : ℕ}
    (h : s.getStoppedPtracee p pid pend options = some (.zombie z)) : z ∈ p.zombies := by
  unfold getStoppedPtracee at h
  split at h
  · rename_i hfound
    cases h
    exact List.mem_of_find?_eq_some hfound
  · obtain ⟨u, -, hsame⟩ := Option.map_eq_some_iff.1 h
    cases hsame

/-- What a tracee that makes a call knows of itself. -/
theorem waitPid_of_id (hs : s.ids.Nodup) (hp : p ∈ s.tracees) (hwait : p.waitPid = 0) :
    ∀ q ∈ s.tracees, q.id = p.id → q.waitPid = 0 := by
  intro q hq hid
  rw [List.inj_on_of_nodup_map hs hq hp hid]
  exact hwait

/-- An event that was told is taken note of, by a tracee that does not wait. -/
theorem Good.updateWaitStatus (h : Good W s s') (hp : p ∈ s'.tracees) (hwait : p.waitPid = 0)
    (faults : Bool) {found : Waited} (hfound : match found with
      | .zombie z => z ∈ p.zombies
      | .tracee t => t ∈ s'.tracees ∧ t.ptracer = some p.id) :
    Good W s (s'.updateWaitStatus p.id faults found) := by
  cases found with
  | zombie z =>
    simp only [Population.updateWaitStatus]
    split
    · exact h.collect hp hwait hfound
    · exact h
  | tracee t =>
    simp only [Population.updateWaitStatus]
    split
    · exact h.detach hfound.1 hfound.2 (waitPid_of_id h.ids hp hwait)
    · split
      · exact h
      · exact h.calm calm_told t.id

theorem good_request (h : s.Sound) (hp : p ∈ s.tracees) (hwait : p.waitPid = 0) (pid : ℤ)
    (detach : Bool) : Good W s (s.request p pid detach) := by
  unfold request
  split
  · exact .refl h
  · exact .refl h
  · rename_i t hfound
    obtain ⟨ht, hptracer⟩ := getStoppedPtracee_tracee hfound
    split
    · exact .refl h
    · have hdetach : Good W s (if detach then s.detachFromPtracer t else s) := by
        split
        · exact (Good.refl h).detach ht hptracer (waitPid_of_id h.ledger.ids hp hwait)
        · exact .refl h
      simp only
      split
      · exact (hdetach.handleTraceeEvent _ _).calm calm_restart t.id
      · exact hdetach.calm calm_restart t.id

theorem good_waitEnter (h : s.Sound) (p : Process) (pid : ℤ) : Good W s (s.waitEnter p pid) := by
  have hin : ∀ w, ∀ s', Good W s s' → Good W s (s'.modify p.id (Process.waitIn w)) :=
    fun w s' hgood => hgood.calm (calm_waitIn w) p.id
  have hkernel := hin .inKernel s (.refl h)
  unfold waitEnter
  simp only
  split
  · exact hkernel
  · split
    · exact hin _ _ hkernel
    · split
      · exact hkernel
      · split
        · exact hin _ _ hkernel
        · exact hkernel

theorem good_waitExit (h : s.Sound) (hp : p ∈ s.tracees) (hwait : p.waitPid = 0) (pid : ℤ)
    (options : ℕ) (faults : Bool) : Good W s (s.waitExit p pid options faults) := by
  unfold waitExit
  split
  · have hin : Good W s (s.modify p.id (Process.waitIn .doesntWait)) :=
      (Good.refl h).calm (calm_waitIn _) p.id
    have hmem : p.waitIn .doesntWait ∈ (s.modify p.id (Process.waitIn .doesntWait)).tracees :=
      List.mem_map.2 ⟨p, hp, if_pos rfl⟩
    simp only
    split
    · rename_i found hfound
      refine hin.updateWaitStatus hmem hwait faults ?_
      cases found with
      | zombie z => exact getStoppedPtracee_zombie hfound
      | tracee t => exact getStoppedPtracee_tracee hfound
    · split
      · exact hin
      · rename_i hblock
        rw [not_or] at hblock
        have honly : ∀ u ∈ (s.modify p.id (Process.waitIn .doesntWait)).tracees, u.id = p.id →
            u = p.waitIn .doesntWait :=
          fun u hu hid => List.inj_on_of_nodup_map hin.ids hu hmem hid
        refine ⟨⟨hin.sound.ledger.plain ?_ p.id, ?_⟩, ?_, hin.echild⟩
        · exact ⟨fun _ => rfl, fun _ => rfl, fun _ => rfl, fun _ => rfl⟩
        · rw [← waitingBut_none]
          refine WaitingBut.modify (waitingBut_none.2 hin.sound.waiting) (fun _ => rfl)
            fun u hu hid _ _ => .inr ?_
          rw [honly u hu hid]
          exact Nat.pos_of_ne_zero hblock.1
        · refine hin.keeps.modify (fun _ => rfl) fun _ u hu hne => absurd ?_ hne
          obtain ⟨hu, hid⟩ := mem_of_get? hu
          rw [honly u hu hid]
          exact hwait
  · exact .refl h

theorem good_attach (h : s.Sound) (hp : p ∈ s.tracees) (pid : ℕ) : Good W s (s.attach p pid) := by
  unfold Population.attach
  split
  · exact .refl h
  · rename_i t hfound
    have ht : t ∈ s.tracees := by
      unfold getTracee at hfound
      split at hfound
      · cases hfound
        exact hp
      · exact List.mem_of_find?_eq_some hfound
    split
    · exact .refl h
    · rename_i hfree
      rw [not_or, Option.not_isSome_iff_eq_none] at hfree
      exact (Good.refl h).attach ht hfree.1 (List.mem_map_of_mem hp) (Ne.symm hfree.2)

theorem good_traceme (h : s.Sound) (ht : t ∈ s.tracees)
    (hparent : t.ptracer = none → ∃ x ∈ s.ids, t.parent = some x) : Good W s (s.traceme t) := by
  unfold traceme
  split
  · exact .refl h
  · rename_i hfree
    rw [not_or, Option.not_isSome_iff_eq_none] at hfree
    obtain ⟨x, hx, hparent⟩ := hparent hfree.1
    rw [hparent]
    have hne : x ≠ t.id := by
      rintro rfl
      exact hfree.2 hparent
    refine ((Good.refl h).attach ht hfree.1 hx hne).calm (fun u => ?_) x
    split
    · exact ⟨rfl, rfl, rfl, rfl, rfl⟩
    · exact ⟨rfl, rfl, rfl, rfl, rfl⟩

/-- Without a parent, `PTRACE_TRACEME` follows a pointer to nothing. -/
theorem faulted_traceme (hnone : t.ptracer = none) (hparent : ∀ x ∈ s.ids, t.parent ≠ some x)
    (hid : t.id ∈ s.ids) : (s.traceme t).faulted = true := by
  have hself : ¬ (t.ptracer.isSome = true ∨ t.parent = some t.id) := by
    rw [hnone, not_or]
    exact ⟨by decide, hparent t.id hid⟩
  unfold traceme
  rw [if_neg hself]
  cases hx : t.parent with
  | none => rfl
  | some x =>
    have hids : (s.modify t.id (Process.joinPtracer x)).ids = s.ids := ids_modify fun _ => rfl
    have hgone : (s.modify t.id (Process.joinPtracer x)).get? x = none := by
      rw [get?_eq_none_iff, hids]
      intro hmem
      exact hparent x hmem hx
    simp only [attachToPtracer, hgone]
    rfl

/-! ### Events -/

theorem Good.of_sound (h : s'.Sound) (hechild : s'.echild = s.echild) : Good Set.univ s s' :=
  ⟨h, fun i hi => absurd (Set.mem_univ i) hi, hechild⟩

/-- The tracee with this number has a ptracer. -/
def Attached (s : Population) (id : ℕ) : Prop :=
  ∃ u ∈ s.tracees, u.id = id ∧ u.ptracer.isSome = true

theorem Attached.modify (h : Attached s id) (hid : ∀ u, (f u).id = u.id)
    (hptracer : ∀ u, (f u).ptracer = u.ptracer) (i : ℕ) : Attached (s.modify i f) id := by
  obtain ⟨u, hu, rfl, hsome⟩ := h
  refine ⟨_, List.mem_map.2 ⟨u, hu, rfl⟩, ?_, ?_⟩
  · split
    · exact hid u
    · rfl
  · split
    · rw [hptracer]
      exact hsome
    · exact hsome

/-- Whoever loses its last ptracee while it waits for it is woken. -/
theorem sound_wake (h : s.Ledger fun _ => 0) (hwait : WaitingBut (some p.id) s) :
    (s.modify p.id Process.wake).Sound := by
  refine ⟨h.plain plain_wake p.id, ?_⟩
  intro q hq hne
  obtain ⟨u, hu, rfl⟩ := List.mem_map.1 hq
  by_cases hid : u.id = p.id
  · rw [if_pos hid] at hne
    exact absurd (calm_restart.quiet _) hne
  · rw [if_neg hid] at hne ⊢
    exact hwait u hu (fun hsame => hid (Option.some.inj hsame)) hne

theorem good_report (h : Good Set.univ s s') (hattached : Attached s' id) (kind : EventKind)
    (faults : Bool) : Good Set.univ s (s'.report id kind faults).1 := by
  have htell : Good Set.univ s (s'.modify id (Process.tell kind)) :=
    h.calm (calm_tell kind) id
  obtain ⟨t, ht, rfl, hsome⟩ :=
    hattached.modify (f := Process.tell kind) (fun _ => rfl) (fun _ => rfl) id
  have hget := get?_of_mem htell.ids ht
  obtain ⟨x, hx⟩ := Option.isSome_iff_exists.1 hsome
  have hmem := (htell.sound.ledger.closed t ht x hx).1
  obtain ⟨p, hp, rfl⟩ := List.mem_map.1 hmem
  unfold report
  simp only [hget, hx, get?_of_mem htell.ids hp]
  split
  · simp only [updateWaitStatus]
    split
    · -- The ptracee is detached, and its ptracer goes on.
      obtain ⟨heq, hledger⟩ := htell.sound.ledger.detach ht hx le_rfl
      refine Good.of_sound (sound_wake hledger ?_) ?_
      · rw [heq]
        refine WaitingBut.modify (WaitingBut.modify ?_ (fun _ => rfl)
          fun u _ _ _ _ => .inl ⟨rfl, le_rfl⟩) (fun _ => rfl) fun u _ _ hne => absurd rfl hne
        intro q hq _
        exact htell.sound.waiting q hq
      · rw [heq]
        exact htell.echild
    · have htold : Good Set.univ s (if faults = true then s'.modify t.id (Process.tell kind)
          else (s'.modify t.id (Process.tell kind)).modify t.id Process.told) := by
        split
        · exact htell
        · exact htell.calm calm_told t.id
      refine Good.of_sound (sound_wake htold.sound.ledger fun q hq _ => htold.sound.waiting q hq) ?_
      exact htold.echild
  · exact htell

theorem good_handlePtraceeEvent (h : Good Set.univ s s') (hattached : Attached s' t.id)
    (faults : Bool) (e : PtraceeEvent) : Good Set.univ s (s'.handlePtraceeEvent t faults e).1 := by
  have hput : ∀ k, Good Set.univ s (s'.modify t.id (Process.putOff k)) ∧
      Attached (s'.modify t.id (Process.putOff k)) t.id := fun k =>
    ⟨h.calm (calm_putOff k) t.id,
      hattached.modify (f := Process.putOff k) (fun _ => rfl) (fun _ => rfl) t.id⟩
  have hstart : ∀ u, Good Set.univ s u ∧ Attached u t.id →
      Good Set.univ s (u.modify t.id Process.startTracing) ∧
        Attached (u.modify t.id Process.startTracing) t.id := fun u hu =>
    ⟨hu.1.calm calm_startTracing t.id,
      hu.2.modify (f := Process.startTracing) (fun _ => rfl) (fun _ => rfl) t.id⟩
  have hhandled : ∀ u, Good Set.univ s u ∧ Attached u t.id →
      Good Set.univ s (u.modify t.id Process.handled) ∧
        Attached (u.modify t.id Process.handled) t.id := fun u hu =>
    ⟨hu.1.calm calm_handled t.id,
      hu.2.modify calm_handled.plain.id calm_handled.plain.ptracer t.id⟩
  have hreport : ∀ u kind, Good Set.univ s u ∧ Attached u t.id →
      Good Set.univ s (u.report t.id kind faults).1 := fun u kind hu =>
    good_report hu.1 hu.2 kind faults
  cases e with
  | syscall ignored exit =>
    simp only [handlePtraceeEvent]
    split
    · exact (hput _).1
    · split
      · exact hreport _ _ (hhandled _ (hput _))
      · exact hreport _ _ (hput _)
  | special wanted =>
    simp only [handlePtraceeEvent]
    split
    · exact hreport _ _ (hhandled _ (hstart _ (hput _)))
    · exact (hput _).1
  | seccomp => exact (hput _).1
  | sigsys suppressed =>
    simp only [handlePtraceeEvent]
    split
    · split
      · exact (hhandled _ (hput _)).1.calm calm_restart t.id
      · exact hreport _ _ (hhandled _ (hput _))
    · exact (hput _).1
  | signal => exact hreport _ _ (hstart _ (hput _))
  | ends => exact hreport _ _ (hstart _ (hput _))

theorem good_event (h : s.Sound) (ht : t ∈ s.tracees) (e : PtraceeEvent) (faults : Bool) :
    Good Set.univ s (s.event t e faults) := by
  have hstop : Good Set.univ s (s.modify t.id Process.stop) :=
    (Good.refl h).calm calm_stop t.id
  have hfinish : ∀ u, Good Set.univ s u →
      Good Set.univ s ((u.handleTraceeEvent t e.kind).modify t.id Process.restart) :=
    fun u hu => (hu.handleTraceeEvent t e.kind).calm calm_restart t.id
  unfold event
  simp only
  split
  · rename_i hsome
    have hattached : Attached (s.modify t.id Process.stop) t.id :=
      Attached.modify (f := Process.stop) ⟨t, ht, rfl, hsome⟩ (fun _ => rfl) (fun _ => rfl) t.id
    have hhandle := good_handlePtraceeEvent hstop hattached faults e
    split
    · exact hhandle
    · exact hfinish _ hhandle
  · exact hfinish _ hstop

theorem good_handleSigstop (h : Good Set.univ s s') (child : ℕ) (faults : Bool) :
    Good Set.univ s (s'.handleSigstop child faults) := by
  unfold handleSigstop
  split
  · exact h
  · rename_i c hget
    obtain ⟨hc, rfl⟩ := mem_of_get? hget
    split
    · rename_i hsome
      have hhandle := good_handlePtraceeEvent h ⟨c, hc, rfl, hsome⟩ faults .signal
      have hput := hhandle.calm (calm_putOff none) c.id
      simp only
      split
      · exact hput
      · exact hput.calm calm_restart c.id
    · exact h.calm calm_restart c.id

theorem good_getOrCreate (h : Good W s s') (id pid : ℕ) : Good W s (s'.getOrCreate id pid) := by
  unfold getOrCreate
  split
  · exact h
  · rename_i hfresh
    rw [not_or] at hfresh
    exact h.insert (newTracee id pid) hfresh.1 rfl rfl rfl rfl

theorem good_adopted (h : Good Set.univ s s') (hp : p ∈ s'.tracees) (hc : c ∈ s'.tracees)
    {traced : Bool}
    (hfree : p.ptracer.isSome = true → p.ptracer ≠ some c.id → traced = true → c.ptracer = none)
    (hne : p.ptracer ≠ some c.id) (parent : Option ℕ) (cloneThread : Bool) :
    Good Set.univ s (match p.ptracer with
      | some ptracer =>
        if traced = true then
          (s'.modify c.id (Process.adopt parent cloneThread)).attachToPtracer c ptracer
        else s'.modify c.id (Process.adopt parent cloneThread)
      | none => s'.modify c.id (Process.adopt parent cloneThread)) := by
  have hadopt := h.calm (calm_adopt parent cloneThread) c.id
  split
  · rename_i x hx
    split
    · rename_i htraced
      have hmem : (c.adopt parent cloneThread) ∈
          (s'.modify c.id (Process.adopt parent cloneThread)).tracees :=
        List.mem_map.2 ⟨c, hc, if_pos rfl⟩
      have hids : (s'.modify c.id (Process.adopt parent cloneThread)).ids = s'.ids :=
        ids_modify fun _ => rfl
      have hnone := hfree (by rw [hx]; rfl) hne htraced
      change Good _ s (attachToPtracer _ (c.adopt parent cloneThread) x)
      refine hadopt.attach hmem hnone ?_ ?_
      · rw [hids]
        exact (h.sound.ledger.closed p hp x hx).1
      · rintro rfl
        exact hne hx
    · exact hadopt
  · exact hadopt

theorem good_newChild (h : Good Set.univ s s') (hp : p ∈ s'.tracees) (hc : c ∈ s'.tracees)
    {traced : Bool}
    (hfree : p.ptracer.isSome = true → p.ptracer ≠ some c.id → traced = true → c.ptracer = none)
    (cloneParent cloneThread stopped faults : Bool) :
    Good Set.univ s (s'.newChild p c cloneParent cloneThread traced stopped faults) := by
  unfold newChild
  split
  · exact h
  · rename_i hne
    simp only
    split
    · exact good_handleSigstop (good_adopted h hp hc hfree hne _ cloneThread) c.id faults
    · exact good_adopted h hp hc hfree hne _ cloneThread

/-! ### A child that has a ptracer already -/

/-- A ledger with debts, and the same tracees. -/
def Debts (d : ℕ → ℤ) (s s' : Population) : Prop := s'.Ledger d ∧ s'.ids = s.ids

theorem Debts.plain (h : Debts d s s') (hf : Plain f) (id : ℕ) : Debts d s (s'.modify id f) :=
  ⟨h.1.plain hf id, (ids_modify hf.id).trans h.2⟩

theorem debts_report (h : Debts d s s') (hattached : Attached s' id) (faults : Bool) :
    Debts d s (s'.report id .stops faults).1 := by
  have htell : Debts d s (s'.modify id (Process.tell .stops)) :=
    h.plain (calm_tell .stops).plain id
  obtain ⟨t, ht, rfl, hsome⟩ :=
    hattached.modify (f := Process.tell .stops) (fun _ => rfl) (fun _ => rfl) id
  have hget := get?_of_mem htell.1.ids ht
  obtain ⟨x, hx⟩ := Option.isSome_iff_exists.1 hsome
  obtain ⟨p, hp, rfl⟩ := List.mem_map.1 (htell.1.closed t ht x hx).1
  have hstops : t.ptracerEvent = some .stops := by
    obtain ⟨u, hu, heq⟩ := List.mem_map.1 ht
    by_cases hid : u.id = t.id
    · rw [if_pos hid] at heq
      rw [← heq]
      rfl
    · rw [if_neg hid] at heq
      exact absurd (congrArg Process.id heq) hid
  unfold report
  simp only [hget, hx, get?_of_mem htell.1.ids hp]
  split
  · have hnotends : ¬ (t.parent = some p.id ∧ t.ptracerEvent = some .ends) := by
      rw [hstops]
      rintro ⟨-, hends⟩
      cases hends
    simp only [updateWaitStatus, if_neg hnotends]
    refine Debts.plain ?_ plain_wake p.id
    split
    · exact htell
    · exact htell.plain calm_told.plain t.id
  · exact htell

theorem debts_handleSigstop (h : Debts d s s') (child : ℕ) (faults : Bool) :
    Debts d s (s'.handleSigstop child faults) := by
  unfold handleSigstop
  split
  · exact h
  · rename_i c hget
    obtain ⟨hc, rfl⟩ := mem_of_get? hget
    split
    · rename_i hsome
      have hput : Debts d s (s'.modify c.id (Process.putOff (some .stops))) :=
        h.plain (calm_putOff _).plain c.id
      have hstart : Debts d s ((s'.modify c.id (Process.putOff (some .stops))).modify c.id
          Process.startTracing) :=
        hput.plain calm_startTracing.plain c.id
      have hattached : Attached ((s'.modify c.id (Process.putOff (some .stops))).modify c.id
          Process.startTracing) c.id :=
        (Attached.modify (f := Process.putOff (some .stops)) ⟨c, hc, rfl, hsome⟩ (fun _ => rfl)
          (fun _ => rfl) c.id).modify (f := Process.startTracing) (fun _ => rfl) (fun _ => rfl) c.id
      have hreport := debts_report hstart hattached faults
      have hdone : Debts d s (((s'.handlePtraceeEvent c faults .signal).1).modify c.id
          (Process.putOff none)) :=
        hreport.plain (calm_putOff none).plain c.id
      simp only
      split
      · exact hdone
      · exact hdone.plain calm_restart.plain c.id
    · exact h.plain calm_restart.plain c.id

/-- A child that is taken over from another ptracer stays on the account of that one. -/
theorem not_sound_newChild (h : s.Sound) (hp : p ∈ s.tracees) (hc : c ∈ s.tracees)
    (hsome : p.ptracer.isSome = true) (hne : p.ptracer ≠ some c.id) (hattached : c.ptracer ≠ none)
    (cloneParent cloneThread stopped faults : Bool) :
    ¬ (s.newChild p c cloneParent cloneThread true stopped faults).Sound := by
  obtain ⟨x, hx⟩ := Option.isSome_iff_exists.1 hsome
  obtain ⟨y, hy⟩ := Option.ne_none_iff_exists'.1 hattached
  have hmem : ∀ parent, (c.adopt parent cloneThread) ∈
      (s.modify c.id (Process.adopt parent cloneThread)).tracees :=
    fun parent => List.mem_map.2 ⟨c, hc, if_pos rfl⟩
  have hids : ∀ parent, (s.modify c.id (Process.adopt parent cloneThread)).ids = s.ids :=
    fun parent => ids_modify fun _ => rfl
  have hadopt : ∀ parent, (s.modify c.id (Process.adopt parent cloneThread)).Ledger fun _ => 0 :=
    fun parent => h.ledger.plain (calm_adopt parent cloneThread).plain c.id
  have hattach : ∀ parent, Debts (fun z => if c.ptracer = some z then 1 else 0) s
      ((s.modify c.id (Process.adopt parent cloneThread)).attachToPtracer
        (c.adopt parent cloneThread) x) := by
    intro parent
    have hxmem : x ∈ (s.modify c.id (Process.adopt parent cloneThread)).ids := by
      rw [hids parent]
      exact (h.ledger.closed p hp x hx).1
    obtain ⟨heq, hledger⟩ := (hadopt parent).attach (hmem parent) hxmem (by
      rintro rfl
      exact hne hx)
    refine ⟨hledger.congr fun z _ => Int.zero_add _, ?_⟩
    rw [heq, ids_modify (f := Process.gainPtracee) fun _ => rfl,
      ids_modify (f := Process.joinPtracer x) fun _ => rfl, hids parent]
  have hdebts : Debts (fun z => if c.ptracer = some z then 1 else 0) s
      (s.newChild p c cloneParent cloneThread true stopped faults) := by
    unfold newChild
    rw [if_neg hne]
    simp only [hx, if_true]
    split
    · exact debts_handleSigstop (hattach _) c.id faults
    · exact hattach _
  intro hsound
  have hmem := (h.ledger.closed c hc y hy).1
  rw [← hdebts.2] at hmem
  obtain ⟨q, hq, rfl⟩ := List.mem_map.1 hmem
  have howed := hdebts.1.balanced q hq
  have hright := hsound.ledger.balanced q hq
  rw [if_pos hy] at howed
  omega

end Modify

end NeoProot.Ptrace.Population
