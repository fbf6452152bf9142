import NeoProot.Lib.Run
import NeoProot.Tracee.PtraceLedger

/-!
# The runs that keep the books

When a tracee is freed its ptracees are detached, it leaves the list, those that point at it let
go of it, and its own ptracer keeps a zombie or loses a ptracee.

## Main results

* `Population.removeTracee_spec`, `Population.freeTracee_spec` — what becomes of the books then.
* `Population.right_iff` — a step keeps the books exactly when it is allowed.
* `Population.books_kept_iff` — the same for whole runs.
-/

namespace NeoProot.Ptrace.Population
open Run

variable {i pid : ℕ} {W' : Set ℕ} {op : PtraceOp}

section Books

variable {s s' : Population} {t : Process} {f : Process → Process} {d : ℕ → ℤ} {id x : ℕ}
  {W : Set ℕ}

/-! ### Freeing -/

theorem others_modify (hf : ∀ u, (f u).id = u.id) (i j : ℕ) :
    (s.modify j f).others i = (s.others i).map fun v => if v.id = j then f v else v := by
  simp only [others, Population.modify, List.filter_map]
  congr 1
  apply List.filter_congr
  intro u _
  rw [Function.comp_apply]
  split
  · rw [hf]
  · rfl

theorem others_modify_self (hf : ∀ u, (f u).id = u.id) (i : ℕ) :
    (s.modify i f).others i = s.others i := by
  have hsame : ∀ v ∈ s.others i, (if v.id = i then f v else v) = v := by
    intro v hv
    rw [if_neg]
    exact of_decide_eq_true (List.mem_filter.1 hv).2
  rw [others_modify hf, List.map_congr_left hsame, List.map_id']

/-- What is left of the ptracees of a tracee after some of them have been detached. -/
structure Detached (i : ℕ) (es : List ℕ) (s s' : Population) : Prop where
  ledger : s'.Ledger fun _ => 0
  waiting : WaitingBut (some i) s'
  keeps : Keeps ∅ s s'
  echild : s'.echild = s.echild
  ids : s'.ids = s.ids
  others : s'.others i = (s.others i).map fun v => if v.id ∈ es then v.leavePtracer else v

theorem detached_foldl {es : List Process} (h : s.Ledger fun _ => 0) (hwait : WaitingBut (some i) s)
    (hes : (es.map (·.id)).Nodup) (hmem : ∀ e ∈ es, e ∈ s.tracees ∧ e.ptracer = some i) :
    Detached i (es.map (·.id)) s (es.foldl detachFromPtracer s) := by
  induction es generalizing s with
  | nil =>
    refine ⟨h, hwait, .refl ∅ s, rfl, rfl, ?_⟩
    simp only [List.map_nil, List.not_mem_nil, if_false, List.map_id']
    rfl
  | cons e es ih =>
    obtain ⟨he, hptracer⟩ := hmem e List.mem_cons_self
    obtain ⟨heq, hledger⟩ := h.detach he hptracer le_rfl
    rw [List.map_cons, List.nodup_cons] at hes
    have hids : (s.detachFromPtracer e).ids = s.ids := ids_detachFromPtracer e
    have hothers : (s.detachFromPtracer e).others i =
        (s.others i).map fun v => if v.id = e.id then v.leavePtracer else v := by
      rw [heq, others_modify_self (f := Process.losePtracee) fun _ => rfl,
        others_modify (f := Process.leavePtracer) fun _ => rfl]
    have hnext : WaitingBut (some i) (s.detachFromPtracer e) := by
      rw [heq]
      refine WaitingBut.modify (WaitingBut.modify hwait (fun _ => rfl)
        fun u _ _ _ _ => .inl ⟨rfl, le_rfl⟩) (fun _ => rfl) fun u _ _ hne => absurd rfl hne
    have hkeeps : Keeps ∅ s (s.detachFromPtracer e) := by
      rw [heq]
      refine ((Keeps.refl ∅ s).quiet ?_ ?_).quiet ?_ ?_
      · exact fun _ => rfl
      · exact fun _ => rfl
      · exact fun _ => rfl
      · exact fun _ => rfl
    have hechild : (s.detachFromPtracer e).echild = s.echild := by
      rw [heq]
      rfl
    have hrest : ∀ v ∈ es, v ∈ (s.detachFromPtracer e).tracees ∧ v.ptracer = some i := by
      intro v hv
      obtain ⟨hvs, hvp⟩ := hmem v (List.mem_cons_of_mem _ hv)
      refine ⟨?_, hvp⟩
      have hve : v.id ≠ e.id := by
        intro hsame
        apply hes.1
        rw [← hsame]
        exact List.mem_map_of_mem hv
      have hvi : v.id ≠ i := Ne.symm (h.closed v hvs i hvp).2
      have hin : v ∈ (s.detachFromPtracer e).others i := by
        rw [hothers]
        refine List.mem_map.2 ⟨v, List.mem_filter.2 ⟨hvs, decide_eq_true hvi⟩, if_neg hve⟩
      exact (List.mem_filter.1 hin).1
    have hdone := ih hledger hnext hes.2 hrest
    refine ⟨hdone.ledger, hdone.waiting, ?_, hdone.echild.trans hechild, hdone.ids.trans hids, ?_⟩
    · intro j hj p hp hne
      obtain ⟨p', hp', hsame⟩ := hkeeps j hj p hp hne
      obtain ⟨p'', hp'', hagain⟩ := hdone.keeps j hj p' hp' (by rw [hsame]; exact hne)
      exact ⟨p'', hp'', hagain.trans hsame⟩
    · rw [List.foldl_cons, hdone.others, hothers, List.map_map]
      apply List.map_congr_left
      intro v _
      rw [Function.comp_apply]
      by_cases hve : v.id = e.id
      · have hleft : v.leavePtracer.id = v.id := rfl
        have hin : v.id ∈ (e :: es).map (·.id) := by
          rw [hve]
          exact List.mem_cons_self
        rw [if_pos hve, hleft, if_pos hin]
        split
        · rfl
        · rfl
      · rw [if_neg hve]
        simp only [List.map_cons, List.mem_cons, hve, false_or]

/-- What the books know of a tracee beside its ptracer. -/
def book (t : Process) : ℕ × ℕ × List Zombie × ℤ := (t.id, t.nbPtracees, t.zombies, t.waitPid)

/-- The books of all tracees. -/
def books (s : Population) : List (ℕ × ℕ × List Zombie × ℤ) := s.tracees.map book

theorem books_modify (hf : ∀ u, book (f u) = book u) : (s.modify id f).books = s.books := by
  simp only [books, Population.modify, List.map_map]
  apply List.map_congr_left
  intro u _
  rw [Function.comp_apply]
  split
  · exact hf u
  · rfl

theorem Calm.book (hf : Calm f) (u : Process) : book (f u) = book u := by
  obtain ⟨hid, -, hnb, hzombies, hwait⟩ := hf u
  rw [Population.book, Population.book, hid, hnb, hzombies, hwait]

/-- The fields that a walk which lets go of a tracee leaves alone. -/
structure Released (s s' : Population) : Prop where
  books : s'.books = s.books
  echild : s'.echild = s.echild
  faulted : s'.faulted = s.faulted

theorem Released.modify (h : Released s s') (hf : ∀ u, book (f u) = book u) (id : ℕ) :
    Released s (s'.modify id f) :=
  ⟨(books_modify hf).trans h.books, h.echild, h.faulted⟩

theorem Released.handleTraceeEvent (h : Released s s') (t : Process) (event : EventKind) :
    Released s (s'.handleTraceeEvent t event) := by
  cases event with
  | stops => exact h.modify calm_handled.book t.id
  | ends =>
    have hmark := h.modify calm_terminate.book t.id
    simp only [Population.handleTraceeEvent, terminateTracee]
    split
    · exact h
    · split
      · unfold Population.killAllTracees
        split
        · exact ⟨hmark.books, hmark.echild, hmark.faulted⟩
        · exact ⟨hmark.books, hmark.echild, hmark.faulted⟩
      · exact ⟨hmark.books, hmark.echild, hmark.faulted⟩

theorem Released.orphan (h : Released s s') (r id : ℕ) : Released s (orphan r s' id) := by
  unfold Population.orphan
  split
  · exact h
  · rename_i t _
    have hparent : Released s
        (if t.parent = some r then s'.modify id Process.leaveParent else s') := by
      split
      · exact h.modify (f := Process.leaveParent) (fun _ => rfl) id
      · exact h
    simp only
    split
    · have hleave := hparent.modify (f := Process.leavePtracer) (fun _ => rfl) id
      refine Released.modify (f := Process.clearPtracee) ?_ (fun _ => rfl) id
      split
      · exact (hleave.handleTraceeEvent _ _).modify calm_restart.book id
      · exact hleave.modify calm_restart.book id
      · exact hleave
    · exact hparent

theorem released_foldl_orphan (r : ℕ) (collected : List ℕ) :
    Released s (collected.foldl (orphan r) s) := by
  have hfold : ∀ u, Released s u → Released s (collected.foldl (orphan r) u) := by
    induction collected with
    | nil => exact fun _ hu => hu
    | cons id collected ih => exact fun u hu => ih _ (hu.orphan r id)
  exact hfold s ⟨rfl, rfl, rfl⟩

theorem exists_book (h : s'.books = s.books) {p' : Process} (hp : p' ∈ s'.tracees) :
    ∃ p ∈ s.tracees, book p = book p' := by
  have hmem : book p' ∈ s'.books := List.mem_map_of_mem hp
  rw [h] at hmem
  exact List.mem_map.1 hmem

theorem ids_of_books (h : s'.books = s.books) : s'.ids = s.ids := by
  have hids : ∀ u : Population, u.ids = u.books.map Prod.fst := by
    intro u
    rw [Population.ids, books, List.map_map]
    rfl
  rw [hids, hids, h]

theorem keeps_of_books (hs : s'.ids.Nodup) (h : s'.books = s.books) : Keeps ∅ s s' := by
  intro i _ p hp _
  obtain ⟨hmem, rfl⟩ := mem_of_get? hp
  obtain ⟨p', hp', hbook⟩ := exists_book h.symm hmem
  have hid : p'.id = p.id := congrArg Prod.fst hbook
  refine ⟨p', ?_, congrArg (fun b => b.2.2.2) hbook⟩
  rw [← hid]
  exact get?_of_mem hs hp'

theorem countP_others {l : List Process} (hl : (l.map (·.id)).Nodup) (ht : t ∈ l)
    (q : Process → Bool) :
    l.countP q = (l.filter (·.id ≠ t.id)).countP q + if q t then 1 else 0 := by
  induction l with
  | nil => cases ht
  | cons u l ih =>
    rw [List.map_cons, List.nodup_cons] at hl
    rw [List.countP_cons]
    by_cases hut : u.id = t.id
    · have hu : u = t := by
        obtain rfl | hmem := List.mem_cons.1 ht
        · rfl
        · exact absurd (hut ▸ List.mem_map_of_mem hmem) hl.1
      have hrest : l.filter (·.id ≠ t.id) = l := by
        apply List.filter_eq_self.2
        intro v hv
        rw [decide_eq_true_iff]
        intro hvt
        apply hl.1
        rw [hut, ← hvt]
        exact List.mem_map_of_mem hv
      rw [List.filter_cons_of_neg (by simp [hut]), hrest, hu]
    · have hmem : t ∈ l := by
        obtain rfl | hmem := List.mem_cons.1 ht
        · exact absurd rfl hut
        · exact hmem
      rw [List.filter_cons_of_pos (by simp [hut]), List.countP_cons, ih hl.2 hmem]
      omega

/-- The tracees that are left when one has been removed, but for its ptracer. -/
theorem ledger_of_released (h : s.Ledger fun _ => 0) (ht : t ∈ s.tracees)
    (hreleased : Released { s with tracees := s.others t.id } s')
    (hlinks : s'.links = ((s.others t.id).map Process.link).map fun l =>
      if l.1 ∈ (s.pointing t.id).map (·.id) then cut t.id l else l)
    (hall : ∀ e ∈ s.others t.id, e.ptracer = some t.id → e ∈ s.pointing t.id) :
    s'.Ledger fun y => if t.ptracer = some y then 1 else 0 := by
  have hids : s'.ids = (s.others t.id).map (·.id) := ids_of_books hreleased.books
  have hne : ∀ x ∈ s'.ids, x ≠ t.id := by
    intro x hx
    rw [hids, ids_others] at hx
    exact of_decide_eq_true (List.mem_filter.1 hx).2
  -- Letting go of the one that is removed is not about the ptracees of the others.
  have hcut : ∀ (l : ℕ × Option ℕ × Option ℕ) (x : ℕ), x ≠ t.id →
      ((if l.1 ∈ (s.pointing t.id).map (·.id) then cut t.id l else l).2.2 = some x ↔
        l.2.2 = some x) := by
    intro l x hx
    split
    · simp only [cut]
      split
      · rename_i hgone
        rw [hgone]
        refine iff_of_false (by simp) fun hsame => hx (Option.some.inj hsame).symm
      · exact Iff.rfl
    · exact Iff.rfl
  have hptracees : ∀ x, x ≠ t.id →
      s'.ptracees x = (s.others t.id).countP fun e => decide (e.ptracer = some x) := by
    intro x hx
    have hcount : s'.ptracees x = s'.links.countP fun l => decide (l.2.2 = some x) := by
      rw [links, List.countP_map]
      rfl
    rw [hcount, hlinks, List.map_map, List.countP_map]
    apply List.countP_congr
    intro e _
    rw [decide_eq_true_iff, Function.comp_apply, Function.comp_apply, decide_eq_true_iff]
    exact hcut e.link x hx
  refine ⟨?_, ?_, ?_, hreleased.faulted.trans h.unfaulted⟩
  · rw [hids]
    exact nodup_others h.ids t.id
  · intro p' hp'
    obtain ⟨p, hp, hbook⟩ := exists_book hreleased.books hp'
    obtain ⟨hps, hpt⟩ := List.mem_filter.1 hp
    have hid : p.id = p'.id := congrArg Prod.fst hbook
    have hnb : p.nbPtracees = p'.nbPtracees := congrArg (fun b => b.2.1) hbook
    have hzombies : p.zombies = p'.zombies := congrArg (fun b => b.2.2.1) hbook
    have hbal := h.balanced p hps
    have hsplit := countP_others h.ids ht fun e => decide (e.ptracer = some p.id)
    rw [← hid, ← hnb, ← hzombies, hptracees p.id (of_decide_eq_true hpt), hbal, ptracees, hsplit]
    simp only [decide_eq_true_eq, others]
    split <;> omega
  · intro u hu y hy
    have hlink : u.link ∈ s'.links := List.mem_map_of_mem hu
    rw [hlinks, List.map_map] at hlink
    obtain ⟨e, he, hsame⟩ := List.mem_map.1 hlink
    rw [Function.comp_apply] at hsame
    obtain ⟨hes, het⟩ := List.mem_filter.1 he
    have hyt : y ≠ t.id := by
      rintro rfl
      have hleads : Leads t.id u.link := .inr hy
      rw [← hsame] at hleads
      by_cases hmem : e.link.1 ∈ (s.pointing t.id).map (·.id)
      · rw [if_pos hmem] at hleads
        exact not_leads_cut t.id _ hleads
      · rw [if_neg hmem] at hsame
        have hptracer : e.ptracer = some t.id := (congrArg (fun l => l.2.2) hsame).trans hy
        exact hmem (List.mem_map_of_mem (hall e he hptracer))
    have hptracer : e.ptracer = some y := by
      apply (hcut e.link y hyt).1
      rw [hsame]
      exact hy
    have hid : e.id = u.id := by
      have hfst := congrArg Prod.fst hsame
      split at hfst
      · exact hfst
      · exact hfst
    obtain ⟨hys, hye⟩ := h.closed e hes y hptracer
    refine ⟨?_, hid ▸ hye⟩
    rw [hids, ids_others]
    exact List.mem_filter.2 ⟨hys, decide_eq_true hyt⟩

/-- Two changes of one tracee are one. -/
theorem modify_modify {g : Process → Process} (hf : ∀ u, (f u).id = u.id) :
    (s.modify id f).modify id g = s.modify id fun u => g (f u) := by
  simp only [Population.modify, List.map_map]
  congr 1
  apply List.map_congr_left
  intro u _
  rw [Function.comp_apply]
  by_cases hu : u.id = id
  · rw [if_pos hu, if_pos ((hf u).trans hu), if_pos hu]
  · rw [if_neg hu, if_neg hu, if_neg hu]

/-- Nobody is woken, or one tracee is, with `ECHILD` and no ptracees left. -/
def WokenOne (W : Set ℕ) (s s' : Population) : Prop :=
  s'.echild = s.echild ∧ Keeps W s s' ∨
    ∃ x, s'.echild = x :: s.echild ∧ Keeps (W ∪ {x}) s s' ∧ ∀ p ∈ s'.get? x, p.nbPtracees = 0

theorem leavePtracer_spec {r : Process} (hx : r.ptracer = some x)
    (h : s.Ledger fun y => if r.ptracer = some y then 1 else 0) (hmem : x ∈ s.ids)
    (hwait : s.Waiting) : (s.leavePtracer r x).Sound ∧ WokenOne ∅ s (s.leavePtracer r x) := by
  have hdelta : s.Ledger (delta x) := by
    refine h.congr fun y _ => ?_
    rw [hx, delta]
    simp only [Option.some.injEq, eq_comm]
  obtain ⟨p, hp, rfl⟩ := List.mem_map.1 hmem
  have hpos : 0 < p.nbPtracees := by
    have hbal := hdelta.balanced p hp
    simp only [delta, if_true] at hbal
    omega
  unfold leavePtracer
  split
  · -- The ptracer keeps a zombie instead.
    have hkeep := hdelta.keep hp ⟨r.pid, r.parent, r.clone⟩
    have hzombie : p.keepZombie ⟨r.pid, r.parent, r.clone⟩ ∈
        (s.modify p.id (Process.keepZombie ⟨r.pid, r.parent, r.clone⟩)).tracees :=
      List.mem_map.2 ⟨p, hp, if_pos rfl⟩
    obtain ⟨heq, hdrop⟩ := hkeep.dropPtracee hzombie hpos
    have hless : (p.keepZombie ⟨r.pid, r.parent, r.clone⟩).losePtracee ∈
        ((s.modify p.id (Process.keepZombie ⟨r.pid, r.parent, r.clone⟩)).dropPtracee
          (p.keepZombie ⟨r.pid, r.parent, r.clone⟩).id).tracees := by
      rw [heq]
      exact List.mem_map.2 ⟨_, hzombie, if_pos rfl⟩
    have hgain := hdrop.gain hless
    have hall : ((s.modify p.id (Process.keepZombie ⟨r.pid, r.parent, r.clone⟩)).dropPtracee
        p.id).modify p.id Process.gainPtracee = s.modify p.id fun u =>
          ((u.keepZombie ⟨r.pid, r.parent, r.clone⟩).losePtracee).gainPtracee := by
      have hid : (p.keepZombie ⟨r.pid, r.parent, r.clone⟩).id = p.id := rfl
      rw [hid] at heq
      rw [heq, modify_modify (f := Process.keepZombie _) fun _ => rfl,
        modify_modify (f := fun u => (u.keepZombie _).losePtracee) fun _ => rfl]
    refine ⟨⟨hgain.congr fun y _ => ?_, ?_⟩, .inl ?_⟩
    · simp only [Process.keepZombie, Process.losePtracee]
      ring
    · simp only
      rw [hall, ← waitingBut_none]
      exact WaitingBut.modify (waitingBut_none.2 hwait) (fun _ => rfl)
        fun u _ _ _ _ => .inr (Nat.succ_pos _)
    · simp only
      rw [hall]
      exact ⟨rfl, (Keeps.refl ∅ s).quiet (fun _ => rfl) fun _ => rfl⟩
  · -- The ptracer has one ptracee less, and goes on if that was the last.
    obtain ⟨heq, hdrop⟩ := hdelta.dropPtracee hp hpos
    have hzero : (s.dropPtracee p.id).Ledger fun _ => 0 := hdrop.congr fun y _ => sub_self _
    have hless : p.losePtracee ∈ (s.dropPtracee p.id).tracees := by
      rw [heq]
      exact List.mem_map.2 ⟨p, hp, if_pos rfl⟩
    have hget : (s.dropPtracee p.id).get? p.id = some p.losePtracee := get?_of_mem hzero.ids hless
    have hbut : WaitingBut (some p.id) (s.dropPtracee p.id) := by
      rw [heq]
      refine WaitingBut.modify (fun q hq _ => hwait q hq) (fun _ => rfl)
        fun u _ _ hne => absurd rfl hne
    have hechild : (s.dropPtracee p.id).echild = s.echild := by
      rw [heq]
      rfl
    simp only [hget]
    split
    · rename_i hlast
      refine ⟨?_, .inr ⟨p.id, ?_, ?_, ?_⟩⟩
      · exact ⟨(sound_wake hzero hbut).ledger.same rfl rfl, (sound_wake hzero hbut).waiting⟩
      · rw [hechild]
      · intro i hi q hq _
        have hip : i ≠ p.id := fun hsame => hi (.inr hsame)
        refine ⟨q, ?_, rfl⟩
        have hq' : ((s.dropPtracee p.id).modify p.id Process.wake).get? i = some q := by
          rw [get?_modify plain_wake.id, heq, get?_modify (f := Process.losePtracee) fun _ => rfl,
            hq, Option.map_some, Option.map_some]
          have hqi : q.id ≠ p.id := by
            rw [(mem_of_get? hq).2]
            exact hip
          rw [if_neg hqi, if_neg hqi]
        exact hq'
      · intro q hq
        have hq' : ((s.dropPtracee p.id).modify p.id Process.wake).get? p.id = some q := hq
        rw [get?_modify plain_wake.id, hget, Option.map_some] at hq'
        have hid : p.losePtracee.id = p.id := rfl
        rw [if_pos hid] at hq'
        cases hq'
        exact (plain_wake.nbPtracees _).trans hlast.1
    · rename_i hmore
      refine ⟨⟨hzero, ?_⟩, .inl ⟨hechild, ?_⟩⟩
      · intro q hq hne
        by_cases hqp : q.id = p.id
        · have hsame := List.inj_on_of_nodup_map hzero.ids hq hless hqp
          rw [hsame] at hne ⊢
          apply Nat.pos_of_ne_zero
          intro hnone
          exact hmore ⟨hnone, hne⟩
        · exact hbut q hq (fun hsame => hqp (Option.some.inj hsame)) hne
      · rw [heq]
        exact (Keeps.refl ∅ s).quiet (fun _ => rfl) fun _ => rfl

theorem batch_map {α β : Type*} (p : β → Bool) (n : ℕ) (g : α → β) (l : List α) :
    batch p n (l.map g) = (batch (p ∘ g) n l).map g := by
  rw [batch, batch, List.filter_map, List.map_take]

theorem freeTracee_of_get? (ht : s.get? t.id = some t) : s.freeTracee t.id =
    match (if 0 < t.nbPtracees then (s.detached t.id).foldl detachFromPtracer s
      else s).get? t.id with
    | none => if 0 < t.nbPtracees then (s.detached t.id).foldl detachFromPtracer s else s
    | some u => (if 0 < t.nbPtracees then (s.detached t.id).foldl detachFromPtracer s
      else s).removeTracee u := by
  unfold freeTracee
  rw [ht]
  rfl

/-- Freeing a tracee is detaching some of its ptracees, and removing it. -/
theorem freeTracee_eq (h : s.Sound) (ht : t ∈ s.tracees) :
    ∃ s₁ t₁, s.freeTracee t.id = s₁.removeTracee t₁ ∧ t₁ ∈ s₁.tracees ∧ t₁.id = t.id ∧
      Detached t.id ((s.detached t.id).map (·.id)) s s₁ := by
  have hmem : ∀ e ∈ s.detached t.id, e ∈ s.tracees ∧ e.ptracer = some t.id := by
    intro e he
    obtain ⟨hes, hptracer⟩ := mem_of_mem_batch he
    exact ⟨hes, of_decide_eq_true hptracer⟩
  have hnodup : ((s.detached t.id).map (·.id)).Nodup :=
    h.ledger.ids.sublist (((List.take_sublist _ _).trans List.filter_sublist).map _)
  have hbut : WaitingBut (some t.id) s := fun q hq _ => h.waiting q hq
  have hdetached := detached_foldl h.ledger hbut hnodup hmem
  have hfold : (if 0 < t.nbPtracees then (s.detached t.id).foldl detachFromPtracer s else s) =
      (s.detached t.id).foldl detachFromPtracer s := by
    split
    · rfl
    · rename_i hzero
      have hnone : s.detached t.id = [] := by
        have hbal := h.ledger.balanced t ht
        have hcount : s.ptracees t.id = 0 := by omega
        rw [ptracees, List.countP_eq_zero] at hcount
        rw [detached, batch, List.filter_eq_nil_iff.2 hcount, List.take_nil]
      rw [hnone]
      rfl
  have hid : t.id ∈ ((s.detached t.id).foldl detachFromPtracer s).ids := by
    rw [hdetached.ids]
    exact List.mem_map_of_mem ht
  obtain ⟨t₁, ht₁, hsame⟩ := List.mem_map.1 hid
  have hget₁ := get?_of_mem hdetached.ledger.ids ht₁
  rw [hsame] at hget₁
  refine ⟨_, t₁, ?_, ht₁, hsame, hdetached⟩
  rw [freeTracee_of_get? (get?_of_mem h.ledger.ids ht), hfold, hget₁]

/-- What `remove_tracee` collects after ptracees were detached, said of the state before. -/
theorem leftNone_iff {s₁ : Population} (h : s.Sound) (i : ℕ)
    (hd : Detached i ((s.detached i).map (·.id)) s s₁) :
    s.LeftNone i ↔ ∀ e ∈ s₁.others i, e.ptracer = some i → e ∈ s₁.pointing i := by
  have hmem : ∀ v ∈ s.others i, (v.id ∈ (s.detached i).map (·.id) ↔ v ∈ s.detached i) := by
    intro v hv
    constructor
    · intro hid
      obtain ⟨w, hw, hsame⟩ := List.mem_map.1 hid
      rw [← List.inj_on_of_nodup_map h.ledger.ids (mem_of_mem_batch hw).1
        (List.mem_filter.1 hv).1 hsame]
      exact hw
    · exact fun hin => List.mem_map_of_mem hin
  have hptracer : ∀ v ∈ s.others i,
      ((if v.id ∈ (s.detached i).map (·.id) then v.leavePtracer else v).ptracer = some i ↔
        v.ptracer = some i ∧ v ∉ s.detached i) := by
    intro v hv
    by_cases hin : v ∈ s.detached i
    · rw [if_pos ((hmem v hv).2 hin)]
      exact iff_of_false (by simp [Process.leavePtracer]) fun hboth => hboth.2 hin
    · rw [if_neg fun hid => hin ((hmem v hv).1 hid), and_iff_left hin]
  have hparent : ∀ v : Process,
      (if v.id ∈ (s.detached i).map (·.id) then v.leavePtracer else v).parent = v.parent := by
    intro v
    split <;> rfl
  have hpointing : s₁.pointing i = (batch
      (fun u => decide (u.parent = some i ∨ u.ptracer = some i ∧ u ∉ s.detached i)) 256
        (s.others i)).map
          fun v => if v.id ∈ (s.detached i).map (·.id) then v.leavePtracer else v := by
    rw [pointing, hd.others, batch_map]
    congr 1
    rw [batch, batch]
    congr 1
    apply List.filter_congr
    intro v hv
    rw [Function.comp_apply, decide_eq_decide, Process.Refers, hparent v, hptracer v hv]
  have hid : ∀ v : Process,
      (if v.id ∈ (s.detached i).map (·.id) then v.leavePtracer else v).id = v.id := by
    intro v
    split <;> rfl
  rw [hpointing, hd.others, LeftNone]
  constructor
  · intro hall e he hpoints
    obtain ⟨v, hv, rfl⟩ := List.mem_map.1 he
    obtain ⟨hvp, hout⟩ := (hptracer v hv).1 hpoints
    obtain hin | hbatch := hall v hv hvp
    · exact absurd hin hout
    · exact List.mem_map_of_mem hbatch
  · intro hall v hv hvp
    by_cases hin : v ∈ s.detached i
    · exact .inl hin
    · have hnext := hall _ (List.mem_map_of_mem hv) ((hptracer v hv).2 ⟨hvp, hin⟩)
      obtain ⟨w, hw, hsame⟩ := List.mem_map.1 hnext
      have hwv : w.id = v.id := by
        have := congrArg Process.id hsame
        rwa [hid, hid] at this
      have hws := (List.mem_filter.1 (mem_of_mem_batch hw).1).1
      rw [← List.inj_on_of_nodup_map h.ledger.ids hws (List.mem_filter.1 hv).1 hwv]
      exact .inr hw

theorem Keeps.trans {s'' : Population} (h : Keeps W s s') (h' : Keeps W' s' s'') :
    Keeps (W ∪ W') s s'' := by
  intro i hi p hp hwait
  obtain ⟨p', hp', hsame⟩ := h i (fun hin => hi (.inl hin)) p hp hwait
  obtain ⟨p'', hp'', hagain⟩ := h' i (fun hin => hi (.inr hin)) p' hp' (by rw [hsame]; exact hwait)
  exact ⟨p'', hp'', hagain.trans hsame⟩

theorem Keeps.mono (h : Keeps W s s') (hW : W ⊆ W') : Keeps W' s s' :=
  fun i hi => h i fun hin => hi (hW hin)

theorem WokenOne.trans {s'' : Population} (hechild : s'.echild = s.echild) (hkeeps : Keeps W s s')
    (h : WokenOne W' s' s'') : WokenOne (W ∪ W') s s'' := by
  obtain ⟨hsame, hnext⟩ | ⟨x, hsame, hnext, hnone⟩ := h
  · exact .inl ⟨hsame.trans hechild, hkeeps.trans hnext⟩
  · refine .inr ⟨x, by rw [hsame, hechild], (hkeeps.trans hnext).mono ?_, hnone⟩
    rw [Set.union_assoc]

theorem removeTracee_eq : s.removeTracee t = match t.ptracer with
    | none => ((s.pointing t.id).map (·.id)).foldl (orphan t.id)
      { s with tracees := s.others t.id }
    | some ptracer => leavePtracer (((s.pointing t.id).map (·.id)).foldl (orphan t.id)
      { s with tracees := s.others t.id }) t ptracer := rfl

theorem removeTracee_spec (h : s.Ledger fun _ => 0) (hwait : WaitingBut (some t.id) s)
    (ht : t ∈ s.tracees) (hall : ∀ e ∈ s.others t.id, e.ptracer = some t.id → e ∈ s.pointing t.id) :
    (s.removeTracee t).Sound ∧ WokenOne {t.id} s (s.removeTracee t) := by
  have hreleased := released_foldl_orphan (s := { s with tracees := s.others t.id }) t.id
    ((s.pointing t.id).map (·.id))
  have hlinks := links_foldl_orphan (s := { s with tracees := s.others t.id }) (r := t.id)
    (nodup_others h.ids t.id) ((s.pointing t.id).map (·.id))
  have hledger := ledger_of_released h ht hreleased hlinks hall
  rw [removeTracee_eq]
  generalize ((s.pointing t.id).map (·.id)).foldl (orphan t.id)
    { s with tracees := s.others t.id } = u at *
  have hids : u.ids = (s.others t.id).map (·.id) := ids_of_books hreleased.books
  have hwaiting : u.Waiting := by
    intro p' hp' hne
    obtain ⟨p, hp, hbook⟩ := exists_book hreleased.books hp'
    obtain ⟨hps, hpt⟩ := List.mem_filter.1 hp
    have hnb : p.nbPtracees = p'.nbPtracees := congrArg (fun b => b.2.1) hbook
    have hpid : p.waitPid = p'.waitPid := congrArg (fun b => b.2.2.2) hbook
    rw [← hnb]
    refine hwait p hps ?_ (by rw [hpid]; exact hne)
    intro hsame
    exact of_decide_eq_true hpt (Option.some.inj hsame)
  have hkeeps : Keeps {t.id} s u := by
    have hothers : Keeps {t.id} s { s with tracees := s.others t.id } := by
      intro i hi p hp _
      obtain ⟨hmem, rfl⟩ := mem_of_get? hp
      refine ⟨p, get?_of_mem (s := { s with tracees := s.others t.id })
        (nodup_others h.ids t.id) ?_, rfl⟩
      exact List.mem_filter.2 ⟨hmem, decide_eq_true hi⟩
    have hrest := hothers.trans (keeps_of_books hledger.ids hreleased.books)
    rw [Set.union_empty] at hrest
    exact hrest
  cases hx : t.ptracer with
  | none =>
    refine ⟨⟨hledger.congr fun y _ => ?_, hwaiting⟩, .inl ⟨hreleased.echild, hkeeps⟩⟩
    rw [hx, if_neg (by simp)]
  | some x =>
    have hmem : x ∈ u.ids := by
      obtain ⟨hxs, hxt⟩ := h.closed t ht x hx
      rw [hids, ids_others]
      exact List.mem_filter.2 ⟨hxs, decide_eq_true hxt⟩
    obtain ⟨hsound, hwoken⟩ := leavePtracer_spec hx hledger hmem hwaiting
    refine ⟨hsound, ?_⟩
    have hechild : u.echild = s.echild := hreleased.echild
    have hboth := hwoken.trans hechild hkeeps
    rw [Set.union_empty] at hboth
    exact hboth

theorem freeTracee_spec (h : s.Sound) (ht : t ∈ s.tracees) (hall : s.LeftNone t.id) :
    (s.freeTracee t.id).Sound ∧ WokenOne {t.id} s (s.freeTracee t.id) := by
  obtain ⟨s₁, t₁, heq, ht₁, hid, hd⟩ := freeTracee_eq h ht
  rw [leftNone_iff h t.id hd] at hall
  rw [← hid] at hall
  have hwait := hd.waiting
  rw [← hid] at hwait
  obtain ⟨hsound, hwoken⟩ := removeTracee_spec hd.ledger hwait ht₁ hall
  rw [heq]
  refine ⟨hsound, ?_⟩
  have hboth := hwoken.trans hd.echild hd.keeps
  rw [Set.empty_union, hid] at hboth
  exact hboth

/-- A ptracee that is left out points at a tracee that is gone. -/
theorem not_sound_freeTracee (h : s.Sound) (ht : t ∈ s.tracees) (hleft : ¬ s.LeftNone t.id) :
    ¬ (s.freeTracee t.id).Sound := by
  obtain ⟨s₁, t₁, heq, ht₁, hid, hd⟩ := freeTracee_eq h ht
  rw [leftNone_iff h t.id hd] at hleft
  push Not at hleft
  obtain ⟨e, he, hptracer, hout⟩ := hleft
  intro hsound
  have hlinks := links_removeTracee hd.ledger.ids t₁
  rw [hid] at hlinks
  have hkept : e.link ∈ (s₁.removeTracee t₁).links := by
    rw [hlinks, List.map_map]
    refine List.mem_map.2 ⟨e, he, ?_⟩
    rw [Function.comp_apply, if_neg]
    intro hmem
    obtain ⟨v, hv, hsame⟩ := List.mem_map.1 hmem
    apply hout
    have hvs := (List.mem_filter.1 (mem_of_mem_batch hv).1).1
    rw [← List.inj_on_of_nodup_map hd.ledger.ids hvs (List.mem_filter.1 he).1 hsame]
    exact hv
  obtain ⟨u, hu, hlink⟩ := List.mem_map.1 hkept
  have hpoints : u.ptracer = some t.id := (congrArg (fun l => l.2.2) hlink).trans hptracer
  rw [heq] at hsound
  have hmem := (hsound.ledger.closed u hu _ hpoints).1
  rw [ids_removeTracee hd.ledger.ids, hid] at hmem
  exact of_decide_eq_true (List.mem_filter.1 hmem).2 rfl

/-! ### Waking -/

/-- A tracee that still waits has ptracees. -/
theorem Sound.number_ne_zero (h : s'.Sound) {p' : Process} (hp : p' ∈ s'.tracees)
    (hwait : p'.waitPid ≠ 0) : s'.ptracees p'.id + p'.zombies.length ≠ 0 := by
  have hbal := h.ledger.balanced p' hp
  have hpos := h.waiting p' hp hwait
  omega

theorem woken_of_good (h : Good ∅ s s') (hechild : s.echild = []) (hop : op.reports = false) :
    s.Woken op s' := by
  intro i p hp p' hp' hwait
  rw [hop, if_neg (by decide), h.echild, hechild]
  obtain ⟨q, hq, hsame⟩ := h.keeps i (Set.notMem_empty i) p hp hwait
  cases hp'.symm.trans hq
  obtain ⟨hmem, rfl⟩ := mem_of_get? hq
  refine iff_of_false List.not_mem_nil (h.sound.number_ne_zero hmem ?_)
  rw [hsame]
  exact hwait

theorem woken_of_reports (h : Good Set.univ s s') (hechild : s.echild = [])
    (hop : op.reports = true) : s.Woken op s' := by
  intro i p _ p' hp' _
  rw [hop, if_pos rfl, h.echild, hechild]
  obtain ⟨hmem, rfl⟩ := mem_of_get? hp'
  refine ⟨List.not_mem_nil, fun hnone => ?_⟩
  by_contra hwait
  exact h.sound.number_ne_zero hmem hwait hnone

theorem woken_of_free (h : s'.Sound) (hwoken : WokenOne {i} s s') (hechild : s.echild = [])
    (hi : i ∉ s'.ids) : s.Woken (.free i) s' := by
  intro j p hp p' hp' hwait
  rw [if_neg (by simp [PtraceOp.reports])]
  obtain ⟨hmem, rfl⟩ := mem_of_get? hp'
  have hji : p'.id ∉ ({i} : Set ℕ) := by
    rintro rfl
    exact hi (List.mem_map_of_mem hmem)
  have hstill : ∀ q ∈ s'.get? p'.id, q.waitPid = p.waitPid →
      s'.ptracees p'.id + p'.zombies.length ≠ 0 := by
    intro q hq hsame
    cases hp'.symm.trans hq
    refine h.number_ne_zero hmem ?_
    rw [hsame]
    exact hwait
  obtain ⟨hsame, hkeeps⟩ | ⟨x, hsame, hkeeps, hnone⟩ := hwoken
  · rw [hsame, hechild]
    obtain ⟨q, hq, hpid⟩ := hkeeps p'.id hji p hp hwait
    exact iff_of_false List.not_mem_nil (hstill q hq hpid)
  · rw [hsame, hechild, List.mem_singleton]
    by_cases hx : p'.id = x
    · have hbal := h.ledger.balanced p' hmem
      rw [← hx] at hnone
      have hlast := hnone p' hp'
      exact iff_of_true hx (by omega)
    · obtain ⟨q, hq, hpid⟩ := hkeeps p'.id (fun hin => hin.elim hji hx) p hp hwait
      exact iff_of_false hx (hstill q hq hpid)

/-! ### Runs -/

/-- A pid that is known is that of a tracee in the list, and none is created for it. -/
theorem getTracee_some {p c : Process} (hp : p ∈ s.tracees) (hc : s.getTracee p pid = some c)
    (id : ℕ) : c ∈ s.tracees ∧ s.getOrCreate id pid = s := by
  have hknown : c ∈ s.tracees ∧ c.pid = pid := by
    unfold getTracee at hc
    split at hc
    · rename_i hsame
      cases hc
      exact ⟨hp, hsame⟩
    · have hpid := List.find?_some hc
      exact ⟨List.mem_of_find?_eq_some hc, beq_iff_eq.1 hpid⟩
  refine ⟨hknown.1, ?_⟩
  rw [getOrCreate, if_pos]
  rw [← hknown.2]
  exact .inr (List.mem_map_of_mem hknown.1)

/-- A tracee that is created has no ptracer. -/
theorem getTracee_getOrCreate {p c : Process} (hp : p ∈ s.tracees) (hold : s.getTracee p pid = none)
    (hc : (s.getOrCreate id pid).getTracee p pid = some c) :
    p ∈ (s.getOrCreate id pid).tracees ∧ c ∈ (s.getOrCreate id pid).tracees ∧ c.ptracer = none := by
  unfold getOrCreate at hc ⊢
  split at hc
  · rw [hold] at hc
    cases hc
  · rename_i hfresh
    rw [if_neg hfresh]
    have hother : p.pid ≠ pid := by
      rintro rfl
      exact hfresh (.inr (List.mem_map_of_mem hp))
    rw [getTracee, if_neg hother, Population.insert, List.find?_cons_of_pos] at hc
    · cases hc
      exact ⟨List.mem_cons_of_mem _ hp, List.mem_cons_self, rfl⟩
    · exact beq_self_eq_true pid

theorem acting_eq_none_or (s : Population) (i : ℕ) :
    s.acting i = none ∨ ∃ p, s.acting i = some p ∧ p ∈ s.tracees ∧ p.id = i ∧ p.waitPid = 0 := by
  cases hp : s.acting i with
  | none => exact .inl rfl
  | some p => exact .inr ⟨p, rfl, acting_spec hp⟩

theorem kept_of_quiet (hechild : s.echild = []) {s' : Population} (hgood : Good ∅ s s')
    (hop : op.reports = false) : s'.Sound ∧ s.Woken op s' :=
  ⟨hgood.sound, woken_of_good hgood hechild hop⟩

theorem kept_of_told (hechild : s.echild = []) {s' : Population} (hgood : Good Set.univ s s')
    (hop : op.reports = true) : s'.Sound ∧ s.Woken op s' :=
  ⟨hgood.sound, woken_of_reports hgood hechild hop⟩

theorem right_traceme (h : s.Sound) (hechild : s.echild = []) (i : ℕ) :
    (s.stepOf (.traceme i)).Sound ∧ s.Woken (.traceme i) (s.stepOf (.traceme i)) ↔
      s.Allowed (.traceme i) := by
  obtain hnone | ⟨t, ht, hmem, -, -⟩ := s.acting_eq_none_or i
  · simp only [stepOf, hnone]
    refine iff_of_true (kept_of_quiet hechild (.refl h) rfl) ?_
    intro t ht
    rw [hnone] at ht
    cases ht
  · simp only [stepOf, ht]
    constructor
    · rintro ⟨hsound, -⟩ u hu hfree
      cases ht.symm.trans hu
      by_contra hparent
      push Not at hparent
      have hfaulted := faulted_traceme hfree hparent (List.mem_map_of_mem hmem)
      rw [hsound.ledger.unfaulted] at hfaulted
      cases hfaulted
    · intro hallowed
      exact kept_of_quiet hechild (good_traceme h hmem (hallowed t ht)) rfl

theorem right_newChild (h : s.Sound) (hechild : s.echild = []) {id : ℕ}
    {cloneParent cloneThread traced stopped faults : Bool}
    (hop : op = .newChild i id pid cloneParent cloneThread traced stopped faults) :
    (s.stepOf op).Sound ∧ s.Woken op (s.stepOf op) ↔ s.Allowed op := by
  subst hop
  obtain hnone | ⟨p, hp, hmem, -, -⟩ := s.acting_eq_none_or i
  · simp only [stepOf, hnone]
    refine iff_of_true (kept_of_told hechild (.refl h) rfl) ?_
    intro p hp
    rw [hnone] at hp
    cases hp
  · have hcreate := good_getOrCreate (W := Set.univ) (.refl h) id pid
    have hallowed : s.Allowed (.newChild i id pid cloneParent cloneThread traced stopped faults) ↔
        ∀ c ∈ s.getTracee p pid, p.ptracer.isSome = true → p.ptracer ≠ some c.id →
          traced = true → c.ptracer = none := by
      constructor
      · exact fun hall => hall p hp
      · intro hall q hq
        cases hp.symm.trans hq
        exact hall
    rw [hallowed]
    simp only [stepOf, hp]
    cases hold : s.getTracee p pid with
    | some c =>
      -- The child has stopped before its parent.
      obtain ⟨hc, hsame⟩ := getTracee_some hmem hold id
      rw [hsame]
      simp only [hold]
      constructor
      · rintro ⟨hsound, -⟩ u hu hsome hne htraced
        cases hu
        by_contra hattached
        rw [htraced] at hsound
        exact not_sound_newChild h hmem hc hsome hne hattached _ _ _ _ hsound
      · intro hall
        exact kept_of_told hechild (good_newChild (.refl h) hmem hc (hall c rfl) _ _ _ _) rfl
    | none =>
      refine iff_of_true (kept_of_told hechild ?_ rfl) fun c hc => by cases hc
      cases hnew : (s.getOrCreate id pid).getTracee p pid with
      | none => exact hcreate
      | some c =>
        obtain ⟨hpnew, hcnew, hfree⟩ := getTracee_getOrCreate hmem hold hnew
        exact good_newChild hcreate hpnew hcnew (fun _ _ _ => hfree) _ _ _ _

theorem right_free (h : s.Sound) (hechild : s.echild = []) (i : ℕ) :
    (s.stepOf (.free i)).Sound ∧ s.Woken (.free i) (s.stepOf (.free i)) ↔
      s.Allowed (.free i) := by
  simp only [stepOf]
  cases hget : s.get? i with
  | none =>
    refine iff_of_true (kept_of_quiet hechild (.refl h) rfl) fun t ht => ?_
    rw [hget] at ht
    cases ht
  | some t =>
    obtain ⟨hmem, rfl⟩ := mem_of_get? hget
    have hallowed : s.Allowed (.free t.id) ↔ (t.terminated = true → s.LeftNone t.id) := by
      constructor
      · exact fun hall => hall t hget
      · intro hall u hu
        cases hget.symm.trans hu
        exact hall
    rw [hallowed]
    simp only
    split
    · rename_i hterminated
      constructor
      · rintro ⟨hsound, -⟩ _
        by_contra hleft
        exact not_sound_freeTracee h hmem hleft hsound
      · intro hall
        obtain ⟨hsound, hwoken⟩ := freeTracee_spec h hmem (hall hterminated)
        refine ⟨hsound, woken_of_free hsound hwoken hechild ?_⟩
        rw [ids_freeTracee h.ledger.ids]
        exact fun hin => of_decide_eq_true (List.mem_filter.1 hin).2 rfl
    · rename_i hterminated
      exact iff_of_true (kept_of_quiet hechild (.refl h) rfl) fun hmarked =>
        absurd hmarked hterminated

/-- A step keeps the books exactly when it is allowed. -/
theorem right_iff_of_echild (h : s.Sound) (hechild : s.echild = []) (op : PtraceOp) :
    (s.stepOf op).Sound ∧ s.Woken op (s.stepOf op) ↔ s.Allowed op := by
  cases op with
  | traceme i => exact right_traceme h hechild i
  | attach i pid =>
    refine iff_of_true (kept_of_quiet hechild ?_ rfl) trivial
    obtain hnone | ⟨p, hp, hmem, -, -⟩ := s.acting_eq_none_or i
    · simp only [stepOf, hnone]
      exact .refl h
    · simp only [stepOf, hp]
      exact good_attach h hmem pid
  | request i pid detach =>
    refine iff_of_true (kept_of_quiet hechild ?_ rfl) trivial
    obtain hnone | ⟨p, hp, hmem, -, hwait⟩ := s.acting_eq_none_or i
    · simp only [stepOf, hnone]
      exact .refl h
    · simp only [stepOf, hp]
      exact good_request h hmem hwait pid detach
  | waitEnter i pid =>
    refine iff_of_true (kept_of_quiet hechild ?_ rfl) trivial
    obtain hnone | ⟨p, hp, -, -, -⟩ := s.acting_eq_none_or i
    · simp only [stepOf, hnone]
      exact .refl h
    · simp only [stepOf, hp]
      exact good_waitEnter h p pid
  | waitExit i pid options faults =>
    refine iff_of_true (kept_of_quiet hechild ?_ rfl) trivial
    obtain hnone | ⟨p, hp, hmem, -, hwait⟩ := s.acting_eq_none_or i
    · simp only [stepOf, hnone]
      exact .refl h
    · simp only [stepOf, hp]
      exact good_waitExit h hmem hwait pid options faults
  | appear id pid =>
    exact iff_of_true (kept_of_quiet hechild (good_getOrCreate (.refl h) id pid) rfl) trivial
  | newChild i id pid cloneParent cloneThread traced stopped faults =>
    exact right_newChild h hechild rfl
  | event i e faults =>
    refine iff_of_true (kept_of_told hechild ?_ rfl) trivial
    simp only [stepOf]
    split
    · exact .refl h
    · rename_i t hget
      split
      · exact .refl h
      · exact good_event h (mem_of_get? hget).1 e faults
  | free i => exact right_free h hechild i

theorem right_iff (h : s.Sound) (op : PtraceOp) : s.Right op ↔ s.Allowed op := by
  have hfresh : { s with echild := [] }.Sound := ⟨h.ledger.same rfl rfl, h.waiting⟩
  exact right_iff_of_echild hfresh rfl op

end Books

/-- A tracer with its first tracee. -/
def start (pid : ℕ) : Population := ⟨[newTracee 0 pid], false, false, [], [], false⟩

theorem sound_start (pid : ℕ) : (start pid).Sound := by
  have honly : ∀ t ∈ (start pid).tracees, t = newTracee 0 pid := fun t ht => List.mem_singleton.1 ht
  refine ⟨⟨List.nodup_singleton _, ?_, ?_, rfl⟩, ?_⟩
  · intro t ht
    rw [honly t ht]
    rfl
  · intro t ht x hx
    rw [honly t ht] at hx
    cases hx
  · intro t ht hwait
    rw [honly t ht] at hwait
    exact absurd rfl hwait

/-- Whatever the tracees do, their books are kept, and those that wait are woken as they should,
exactly when all operations are allowed. -/
theorem books_kept_iff (pid : ℕ) (ops : List PtraceOp) :
    AllSteps step Right (start pid) ops ↔ AllSteps step Allowed (start pid) ops :=
  allSteps_congr_of_invariant (I := Sound) (fun _ _ _ hright => hright.1)
    (fun _ op h => right_iff h op) (sound_start pid) ops

/-- The first tracee has no parent, and asks to be traced by it. -/
theorem first_traceme_faults :
    ¬ ∀ (pid : ℕ) (ops : List PtraceOp), AllSteps step Right (start pid) ops := by
  intro h
  have hright := (h 1 [.traceme 0]).1.1.ledger.unfaulted
  exact absurd hright (by decide)

end NeoProot.Ptrace.Population
