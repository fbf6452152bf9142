import NeoProot.SysVIpc.Messages
import NeoProot.Lib.Run
import Mathlib.Logic.Function.Basic
import Mathlib.Algebra.BigOperators.Group.List.Basic
import Mathlib.Algebra.Ring.Nat

/-!
# The account of the messages

Beside the queues a ledger is kept of what was sent to each of them and what
became of it, and for a message that is still queued of the receiver that was
woken for it.

## Main definitions

* `Noted` — what an event does to the messages, read off its note.
* `Attention` — what was done about a queued message.
* `MsgLedger` — the account.
-/

namespace NeoProot.SysVIpc

open Run

variable {q : MsgQueueContent} {k : ℕ} {m : SysVIpcMsgQueueItem} {note : MsgNote}

/-! ### What an event does to the queues -/

/-- What an event does to the queues, as its note says. -/
inductive Noted (before after : ℕ → Option MsgQueueContent) : MsgNote → Prop
  | nothing (h : after = before) : Noted before after .nothing
  | blocked {idx : ℕ} {q : MsgQueueContent} (hq : before idx = some q) (h : after = before) :
      Noted before after (.blocked idx)
  | created {idx : ℕ} (hnew : before idx = none)
      (h : after = Function.update before idx (some .empty)) : Noted before after (.created idx)
  | sent {idx : ℕ} {m : SysVIpcMsgQueueItem} {woke : Option ℕ} {q : MsgQueueContent}
      (hq : before idx = some q) (h : after = Function.update before idx (some (q.append m))) :
      Noted before after (.sent idx m woke)
  | received {idx k length : ℕ} {m : SysVIpcMsgQueueItem} {q : MsgQueueContent}
      (hq : before idx = some q) (hk : q.items[k]? = some m)
      (h : after = Function.update before idx (some (q.after (.taken k m length)))) :
      Noted before after (.received idx k m)
  | refused {idx : ℕ} {a : MsgrcvArgs} {tried : Option SysVIpcMsgQueueItem} {u : Option ℤ}
      (h : after = before) : Noted before after (.refused idx a tried u)
  | removed {idx : ℕ} (h : after = Function.update before idx none) :
      Noted before after (.removed idx)
  | left (h : after = before) : Noted before after .left

/-- What an attempt to receive took was in the queue. -/
theorem doMsgrcv_taken {a : MsgrcvArgs} {u : Option ℤ} {len : ℕ}
    (h : doMsgrcv q a u = .taken k m len) : q.items[k]? = some m := by
  rw [doMsgrcv] at h
  split at h
  · cases h
  · split at h
    · cases h
    · split at h
      · split at h <;> cases h
      · split at h
        · cases h
        · rename_i p hk
          split at h
          · cases h
          · split at h
            · cases h
            · split at h
              · cases h
              · rw [Attempt.taken.injEq] at h
                rw [← h.1, ← h.2.1]
                exact hk

/-- A `msgrcv` that is able to block. -/
structure CanBlock (a : MsgrcvArgs) : Prop where
  known : a.msgflg &&& ~~~(IPC_NOWAIT ||| MSG_NOERROR ||| MSG_COPY ||| MSG_EXCEPT) = 0
  waits : ¬ HasFlag a.msgflg IPC_NOWAIT
  takes : ¬ HasFlag a.msgflg MSG_COPY

/-- A receiver blocks only when the queue has nothing that it wants. -/
theorem doMsgrcv_blocked {a : MsgrcvArgs} {u : Option ℤ} (h : doMsgrcv q a u = .blocked) :
    CanBlock a ∧ ∀ m ∈ q.items, Wanted a m = false := by
  rw [doMsgrcv] at h
  split at h
  · cases h
  · rename_i hknown
    split at h
    · cases h
    · rename_i hcopy
      split at h
      · rename_i hselect
        split at h
        · cases h
        · rename_i hwait
          have hno : ¬ HasFlag a.msgflg MSG_COPY := fun hc => hcopy ⟨hc, .inl hwait⟩
          rw [selectMsg, if_neg hno] at hselect
          exact ⟨⟨not_not.1 hknown, hwait, hno⟩, List.findIdx?_eq_none_iff.1 hselect⟩
      · split at h
        · cases h
        · split at h
          · cases h
          · split at h
            · cases h
            · split at h <;> cases h

/-- One attempt, read off its note. -/
theorem noted_attempt {queues : List SysVIpcMsgQueue} {idx : ℕ} (hq : contentAt queues idx = some q)
    (a : MsgrcvArgs) (u : Option ℤ) :
    Noted (contentAt queues)
      (contentAt (modifyContent queues idx (·.after (doMsgrcv q a u))))
      ((doMsgrcv q a u).note idx) := by
  rw [contentAt_modifyContent hq]
  cases h : doMsgrcv q a u with
  | failed e => exact .nothing (update_contentAt_self hq)
  | blocked => exact .blocked hq (update_contentAt_self hq)
  | copied len => exact .nothing (update_contentAt_self hq)
  | taken k m len => exact .received hq (doMsgrcv_taken h) rfl

theorem noted_msgget (w : MsgWorld) (self : ℕ) (a : MsggetArgs) :
    Noted (contentAt w.queues) (contentAt (w.handle self (.msgget a)).1.queues)
      (w.handle self (.msgget a)).2.2 := by
  simp only [MsgWorld.handle, msgget]
  cases hfind : findExisting w.queues a.key with
  | some i =>
    dsimp only
    split <;> exact .nothing rfl
  | none =>
    dsimp only
    split
    · exact .nothing rfl
    · split
      · exact .nothing rfl
      · split
        · refine .nothing ?_
          rw [contentAt_place, ← contentAt_claimIndex w.queues]
          exact Function.update_eq_self _ _
        · refine .created (contentAt_claimIndex w.queues) ?_
          rw [contentAt_place]
          rfl

theorem msgsndTarget_eq_ok {objects : List SysVIpcMsgQueue} {a : MsgsndArgs} {idx : ℕ}
    (h : msgsndTarget objects a = .ok idx) : lookupIpcObject objects a.msqid = some idx := by
  rw [msgsndTarget] at h
  cases hl : lookupIpcObject objects a.msqid with
  | none => rw [hl] at h; cases h
  | some i =>
    rw [hl] at h
    dsimp only at h
    split at h
    · cases h
    · split at h
      · cases h
      · split at h
        · cases h
        · split at h
          · cases h
          · split at h
            · cases h
            · rw [Except.ok.injEq] at h
              rw [h]

theorem noted_msgsnd (w : MsgWorld) (a : MsgsndArgs) :
    Noted (contentAt w.queues) (contentAt (msgsnd w a).1.queues) (msgsnd w a).2.2 := by
  rw [msgsnd]
  cases ht : msgsndTarget w.queues a with
  | error e => exact .nothing rfl
  | ok idx =>
    obtain ⟨q, -, hq⟩ := lookup_contentAt (msgsndTarget_eq_ok ht)
    exact .sent hq (contentAt_modifyContent hq (·.append a.item))

theorem noted_msgrcv (w : MsgWorld) (self : ℕ) (msqid : BitVec 32)
    (msgp msgsz msgtyp msgflg : UInt64) (u : Option ℤ) :
    Noted (contentAt w.queues)
      (contentAt (msgrcv w self msqid msgp msgsz msgtyp msgflg u).1.queues)
      (msgrcv w self msqid msgp msgsz msgtyp msgflg u).2.2 := by
  rw [msgrcv]
  cases hl : lookupIpcObject w.queues msqid with
  | none => exact .nothing rfl
  | some idx =>
    obtain ⟨q, hget, hq⟩ := lookup_contentAt hl
    dsimp only
    rw [hget]
    exact noted_attempt hq _ _

theorem noted_msgctl (w : MsgWorld) (a : MsgctlArgs) :
    Noted (contentAt w.queues) (contentAt (msgctl w a).1.queues) (msgctl w a).2.2 := by
  rw [msgctl]
  cases lookupIpcObject w.queues a.msqid with
  | none => exact .nothing rfl
  | some idx =>
    dsimp only
    split
    · exact .removed (contentAt_modify_invalid _ _ fun _ => rfl)
    · split <;> exact .nothing rfl

theorem noted_msgrcvRetry (w : MsgWorld) (c : IpcTracee) (u : Option ℤ) :
    Noted (contentAt w.queues) (contentAt (msgrcvRetry w c u).1.queues)
      (msgrcvRetry w c u).2 := by
  rw [msgrcvRetry]
  split
  · split
    · exact .nothing rfl
    · rename_i q hget
      split
      · rename_i hv
        have hq := contentAt_of_get hget hv
        rw [contentAt_modifyContent hq]
        dsimp only
        cases hresult : doMsgrcv q.content c.msgrcv u with
        | blocked => exact .nothing (update_contentAt_self hq)
        | failed errno => exact .refused (update_contentAt_self hq)
        | copied len => exact .nothing (update_contentAt_self hq)
        | taken k m len => exact .received hq (doMsgrcv_taken hresult) rfl
      · exact .nothing rfl
  · exact .nothing rfl

theorem noted_resume (w : MsgWorld) (c : IpcTracee) (u : Option ℤ) :
    Noted (contentAt w.queues) (contentAt (w.resume c u).1.queues) (w.resume c u).2 := by
  simp only [MsgWorld.resume]
  split
  · exact noted_msgrcvRetry w c u
  · exact .nothing rfl

/-- The note of an event tells what it does to the queues. -/
theorem step_noted (w : MsgWorld) (e : MsgEvent) :
    Noted (contentAt w.queues) (contentAt (w.step e).1.queues) (w.step e).2 := by
  unfold MsgWorld.step
  split
  · exact .nothing rfl
  · cases e with
    | call pid fromSigsys call =>
      dsimp only
      split
      · exact .nothing rfl
      · cases call with
        | msgget a => exact noted_msgget w pid a
        | msgsnd a => exact noted_msgsnd w a
        | msgrcv msqid msgp msgsz msgtyp msgflg u =>
          exact noted_msgrcv w pid msqid msgp msgsz msgtyp msgflg u
        | msgctl a => exact noted_msgctl w a
    | enter pid u =>
      dsimp only
      split
      · exact .nothing rfl
      · split
        · exact noted_resume w _ u
        · exact .nothing rfl
    | leave pid u =>
      dsimp only
      split
      · exact .nothing rfl
      · split
        · exact noted_resume w _ u
        · exact .nothing rfl
    | clone parent child thread => exact .nothing rfl
    | exit pid => exact .left rfl

/-! ### The account -/

/-- What was done about a queued message: when it was sent no receiver waited for it, or one was
told to retry; and how that retry ended without it: it took another message, or was refused one,
or the receiver left before it. -/
inductive Attention
  | unattended
  | scheduled (pid : ℕ)
  | overtaken
  | refused (args : MsgrcvArgs) (tried : Option SysVIpcMsgQueueItem) (unwritable : Option ℤ)
  | deserted
  deriving DecidableEq, Repr

/-- What an event of `pid` makes of it. -/
def Attention.after (pid : ℕ) (note : MsgNote) (a : Attention) : Attention :=
  if a = .scheduled pid then
    match note with
    | .received .. => .overtaken
    | .refused _ args tried unwritable => .refused args tried unwritable
    | .left => .deserted
    | _ => a
  else a

/-- The account of the queues that a slot has held: what was sent, what was received, what
went with a removed queue, and what is queued, each with what was done about it. -/
structure SlotLedger where
  sent : List SysVIpcMsgQueueItem
  received : List SysVIpcMsgQueueItem
  destroyed : List SysVIpcMsgQueueItem
  queued : List (SysVIpcMsgQueueItem × Attention)
  deriving DecidableEq, Repr

variable {s : SlotLedger}

/-- The account of a namespace.  `born` counts the queues that a slot has held, and `blockedOn`
is the number of the queue that a tracee last blocked on. -/
structure MsgLedger where
  slots : ℕ → SlotLedger
  born : ℕ → ℕ
  blockedOn : ℕ → ℕ

variable {l : MsgLedger}

/-- The queued messages, with what an event of `pid` makes of the attention to them. -/
def SlotLedger.attended (s : SlotLedger) (pid : ℕ) (note : MsgNote) :
    List (SysVIpcMsgQueueItem × Attention) :=
  s.queued.map fun p => (p.1, p.2.after pid note)

/-- What was queued goes to the account of one slot. -/
def SlotLedger.record (s : SlotLedger) (pid : ℕ) (note : MsgNote) : SlotLedger :=
  match note with
  | .sent _ m woke =>
    { s with
      sent := m :: s.sent
      queued := s.attended pid note ++ [(m, woke.elim .unattended .scheduled)] }
  | .received _ k m =>
    { s with received := m :: s.received, queued := (s.attended pid note).eraseIdx k }
  | .removed _ => { s with destroyed := s.queued.map Prod.fst ++ s.destroyed, queued := [] }
  | .nothing | .created _ | .blocked _ | .refused .. | .left =>
    { s with queued := s.attended pid note }

/-- The note is about the slot; that a tracee left is about all of them. -/
def MsgNote.About (i : ℕ) : MsgNote → Prop
  | nothing => False
  | created idx | sent idx _ _ | blocked idx | received idx _ _ | refused idx _ _ _
  | removed idx => idx = i
  | left => True

instance (i : ℕ) : (note : MsgNote) → Decidable (note.About i)
  | .nothing => .isFalse id
  | .created idx | .sent idx _ _ | .blocked idx | .received idx _ _ | .refused idx _ _ _
  | .removed idx => inferInstanceAs (Decidable (idx = i))
  | .left => .isTrue trivial

/-- Enter a note, of an event of the tracee `pid`. -/
def MsgLedger.record (l : MsgLedger) (pid : ℕ) (note : MsgNote) : MsgLedger where
  slots i := if note.About i then (l.slots i).record pid note else l.slots i
  born i := if note = .created i then l.born i + 1 else l.born i
  blockedOn p :=
    match note with
    | .blocked idx => if p = pid then l.born idx else l.blockedOn p
    | _ => l.blockedOn p

theorem MsgLedger.record_slots_self {pid i : ℕ} (h : note.About i) :
    (l.record pid note).slots i = (l.slots i).record pid note :=
  if_pos h

theorem MsgLedger.record_slots_other {pid i : ℕ} (h : ¬ note.About i) :
    (l.record pid note).slots i = l.slots i :=
  if_neg h

@[simp] theorem SlotLedger.map_attended (s : SlotLedger) (pid : ℕ) (note : MsgNote) :
    (s.attended pid note).map Prod.fst = s.queued.map Prod.fst := by
  rw [attended, List.map_map]
  rfl

/-- The tracee of an event. -/
def MsgEvent.actor : MsgEvent → ℕ
  | call pid _ _ | enter pid _ | leave pid _ | exit pid => pid
  | clone parent _ _ => parent

/-- A namespace with its account. -/
structure MsgRun where
  world : MsgWorld
  ledger : MsgLedger

/-- One event, with its note in the account. -/
def MsgRun.step (r : MsgRun) (e : MsgEvent) : MsgRun where
  world := (r.world.step e).1
  ledger := r.ledger.record e.actor (r.world.step e).2

/-- A namespace at its start. -/
def MsgRun.initial (pid : ℕ) : MsgRun where
  world := MsgWorld.initial pid
  ledger := ⟨fun _ => ⟨[], [], [], []⟩, fun _ => 0, fun _ => 0⟩

/-- The messages in the queue of a slot. -/
def queuedItems (q : Option MsgQueueContent) : List SysVIpcMsgQueueItem :=
  match q with
  | some q => q.items
  | none => []

/-- The account of one slot agrees with the queue in it. -/
structure SlotAccounted (q : Option MsgQueueContent) (s : SlotLedger) : Prop where
  mirrored : s.queued.map Prod.fst = queuedItems q
  conserved : s.sent.Perm (s.received ++ s.destroyed ++ queuedItems q)
  counted : ∀ c ∈ q, c.msgQnum = c.items.length ∧
    c.msgCbytes = (c.items.map fun m => m.mtext.length).sum

theorem SlotAccounted.attended {q : Option MsgQueueContent} (h : SlotAccounted q s) (pid : ℕ)
    (note : MsgNote) : SlotAccounted q { s with queued := s.attended pid note } :=
  ⟨(s.map_attended pid note).trans h.mirrored, h.conserved, h.counted⟩

theorem SlotAccounted.sent (h : SlotAccounted (some q) s) (pid idx : ℕ) (m : SysVIpcMsgQueueItem)
    (woke : Option ℕ) : SlotAccounted (some (q.append m)) (s.record pid (.sent idx m woke)) := by
  have hm := h.mirrored
  simp only [queuedItems] at hm
  refine ⟨?_, ?_, ?_⟩
  · simp [SlotLedger.record, queuedItems, MsgQueueContent.append, hm]
  · simp only [SlotLedger.record, queuedItems, MsgQueueContent.append]
    rw [← List.append_assoc]
    exact (h.conserved.cons m).trans (List.perm_append_singleton m _).symm
  · intro c hc
    rw [Option.mem_some] at hc
    have hq := h.counted q rfl
    rw [← hc]
    simp [MsgQueueContent.append, hq.1, hq.2]

theorem perm_eraseIdx {items : List SysVIpcMsgQueueItem} (h : items[k]? = some m) :
    items.Perm (m :: items.eraseIdx k) := by
  obtain ⟨hk, hm⟩ := List.getElem?_eq_some_iff.1 h
  rw [← hm]
  exact (List.getElem_cons_eraseIdx_perm hk).symm

theorem SlotAccounted.received (h : SlotAccounted (some q) s) (hk : q.items[k]? = some m)
    (pid idx len : ℕ) :
    SlotAccounted (some (q.after (.taken k m len))) (s.record pid (.received idx k m)) := by
  have hm := h.mirrored
  simp only [queuedItems] at hm
  have hperm := perm_eraseIdx hk
  refine ⟨?_, ?_, ?_⟩
  · simp only [SlotLedger.record, queuedItems, MsgQueueContent.after]
    rw [← List.eraseIdx_map, SlotLedger.map_attended, hm]
  · simp only [SlotLedger.record, queuedItems, MsgQueueContent.after]
    have hitems : (s.received ++ s.destroyed ++ q.items).Perm
        (s.received ++ s.destroyed ++ m :: q.items.eraseIdx k) := hperm.append_left _
    exact (h.conserved.trans hitems).trans List.perm_middle
  · intro c hc
    rw [Option.mem_some] at hc
    obtain ⟨hqnum, hcbytes⟩ := h.counted q rfl
    have hlen := hperm.length_eq
    have hsum := (hperm.map fun m => m.mtext.length).sum_eq
    rw [List.length_cons] at hlen
    rw [List.map_cons, List.sum_cons] at hsum
    rw [← hc]
    simp only [MsgQueueContent.after]
    omega

theorem SlotAccounted.removed {q : Option MsgQueueContent} (h : SlotAccounted q s) (pid idx : ℕ) :
    SlotAccounted none (s.record pid (.removed idx)) := by
  refine ⟨rfl, ?_, fun c hc => by cases hc⟩
  simp only [SlotLedger.record, queuedItems, List.append_nil, h.mirrored]
  refine h.conserved.trans ?_
  rw [List.append_assoc]
  exact List.perm_append_comm.append_left _

theorem SlotAccounted.created (h : SlotAccounted none s) : SlotAccounted (some .empty) s := by
  refine ⟨h.mirrored, h.conserved, ?_⟩
  intro c hc
  rw [Option.mem_some] at hc
  rw [← hc]
  exact ⟨rfl, rfl⟩

/-- The account of every slot agrees with its queue. -/
def Accounted (content : ℕ → Option MsgQueueContent) (l : MsgLedger) : Prop :=
  ∀ i, SlotAccounted (content i) (l.slots i)

/-- Entering the note of an event keeps the account right. -/
theorem Noted.accounted {before after : ℕ → Option MsgQueueContent} (h : Noted before after note)
    (hl : Accounted before l) (pid : ℕ) : Accounted after (l.record pid note) := by
  intro i
  have hi := hl i
  by_cases hslot : note.About i
  · rw [MsgLedger.record_slots_self hslot]
    cases h with
    | nothing heq => exact hslot.elim
    | blocked _ heq | refused heq | left heq =>
      rw [heq]
      exact hi.attended pid _
    | created hnew heq =>
      cases hslot
      rw [hnew] at hi
      rw [heq, Function.update_self]
      exact (hi.attended pid _).created
    | sent hq heq =>
      cases hslot
      rw [hq] at hi
      rw [heq, Function.update_self]
      exact hi.sent pid _ _ _
    | received hq hk heq =>
      cases hslot
      rw [hq] at hi
      rw [heq, Function.update_self]
      exact hi.received hk pid _ _
    | removed heq =>
      cases hslot
      rw [heq, Function.update_self]
      exact hi.removed pid _
  · rw [MsgLedger.record_slots_other hslot]
    cases h with
    | nothing heq | blocked _ heq | refused heq => exact heq ▸ hi
    | left heq => exact absurd trivial hslot
    | created hnew heq | sent hq heq | received hq hk heq | removed heq =>
      rw [heq, Function.update_of_ne fun hi => hslot hi.symm]
      exact hi

end NeoProot.SysVIpc
