import NeoProot.Extension.NetlinkRoute
import Mathlib.Data.List.Nodup

/-!
# Route sockets as queues of replies

What is left to read of the entry of a descriptor is what has been stored for its socket and not
been served, as long as no reply takes the place of another.  `replies_of_run` follows: a route
socket answers each receive itself, with the next part of its replies or with `EAGAIN`, and a
closed descriptor leaves nothing behind.

## Main definitions

* `Config.unread` — what an entry has left.
* `State.Sound` — the condition on a call.
* `State.Kept` — what a call keeps to.
-/

namespace NeoProot.NetlinkRoute

open Run

/-! ### The first element under a key -/

section Update

variable {α : Type} (key : α → ℤ) (change : α → α) (fresh : α) {k : ℤ}

/-- What is found after an update. -/
theorem find?_update (hchange : ∀ x, key (change x) = key x) (hfresh : key fresh = k) (l : List α)
    (k' : ℤ) :
    (update (key · == k) change fresh l).find? (key · == k') =
      if k' = k then some (change ((l.find? (key · == k)).getD fresh))
      else l.find? (key · == k') := by
  induction l with
  | nil =>
    rw [update, List.find?_singleton, hchange, hfresh]
    by_cases hk : k' = k
    · rw [if_pos hk, hk, beq_self_eq_true, if_pos rfl]
      rfl
    · rw [if_neg hk, if_neg]
      · rfl
      · rw [beq_iff_eq]
        exact Ne.symm hk
  | cons x xs ih =>
    rw [update]
    by_cases hx : key x = k
    · have hfound : (key x == k) = true := beq_iff_eq.2 hx
      rw [if_pos hfound, List.find?_cons, hchange, hx]
      by_cases hk : k' = k
      · rw [if_pos hk, hk, beq_self_eq_true, List.find?_cons, hfound]
        rfl
      · have hother : (k == k') = false := beq_eq_false_iff_ne.2 (Ne.symm hk)
        rw [if_neg hk, hother, List.find?_cons, hx, hother]
    · have hnot : (key x == k) = false := beq_eq_false_iff_ne.2 hx
      rw [hnot, if_neg Bool.false_ne_true, List.find?_cons, ih]
      by_cases hk : k' = k
      · rw [if_pos hk, if_pos hk, hk, hnot, List.find?_cons, hnot]
      · rw [if_neg hk, if_neg hk, List.find?_cons]

theorem keys_update (hchange : ∀ x, key (change x) = key x) (hfresh : key fresh = k) (l : List α)
    (h : (l.map key).Nodup) : ((update (key · == k) change fresh l).map key).Nodup := by
  have hkeys : ∀ l : List α, (update (key · == k) change fresh l).map key =
      if k ∈ l.map key then l.map key else l.map key ++ [k] := by
    intro l
    induction l with
    | nil => rw [update, List.map_cons, hchange, hfresh]; rfl
    | cons x xs ih =>
      rw [update]
      by_cases hx : key x = k
      · rw [if_pos (beq_iff_eq.2 hx), List.map_cons, hchange, List.map_cons, hx,
          if_pos List.mem_cons_self]
      · have hnot : (key x == k) = false := beq_eq_false_iff_ne.2 hx
        rw [hnot, if_neg Bool.false_ne_true, List.map_cons, ih, List.map_cons]
        by_cases hmem : k ∈ xs.map key
        · rw [if_pos hmem, if_pos (List.mem_cons_of_mem _ hmem)]
        · rw [if_neg hmem, if_neg]
          · rfl
          · rw [List.mem_cons]
            exact fun h => h.elim (fun h => hx h.symm) hmem
  rw [hkeys]
  split
  · exact h
  · rename_i hmem
    exact List.nodup_append.2 ⟨h, List.nodup_singleton k, by
      intro a ha b hb hab
      rw [List.mem_singleton] at hb
      exact hmem (hb ▸ hab ▸ ha)⟩

/-- Where each key is there once, an element is found under its own. -/
theorem find?_eq_some_of_nodup {l : List α} (h : (l.map key).Nodup) {x : α} :
    l.find? (key · == k) = some x ↔ x ∈ l ∧ key x = k := by
  constructor
  · intro hfind
    refine ⟨List.mem_of_find?_eq_some hfind, ?_⟩
    simpa only [beq_iff_eq] using List.find?_some hfind
  · rintro ⟨hmem, hkey⟩
    cases hfind : l.find? (key · == k) with
    | none =>
      have hnot := List.find?_eq_none.1 hfind x hmem
      exact absurd (beq_iff_eq.2 hkey) hnot
    | some y =>
      have hy := List.mem_of_find?_eq_some hfind
      have hkey' : key y = k := by
        simpa only [beq_iff_eq] using List.find?_some hfind
      rw [List.inj_on_of_nodup_map h hy hmem (hkey'.trans hkey.symm)]

end Update

/-! ### The two tables -/

/-- The protocol that a descriptor has in the first table. -/
def Config.protocol (c : Config) (fd : ℤ) : Option ℤ :=
  (c.fds.find? (·.fd == fd)).map (·.protocol)

/-- What the entry of a descriptor has left. -/
def Config.unread (c : Config) (fd : ℤ) : Bytes :=
  match c.getPending fd with
  | some p => p.buf.drop p.off
  | none => []

variable {c : Config} {fd fd' : ℤ}

theorem isRouteFd_iff : c.isRouteFd fd = true ↔ c.protocol fd = some netlinkRoute := by
  rw [Config.isRouteFd, Config.protocol]
  cases c.fds.find? (·.fd == fd) with
  | none => simp
  | some e => simp

theorem protocol_rememberFd (protocol : ℤ) :
    (c.rememberFd fd protocol).protocol fd' =
      if fd' = fd then some protocol else c.protocol fd' := by
  refine (congrArg (Option.map (·.protocol))
    (find?_update NetlinkRouteFd.fd (fun e => { e with protocol := protocol }) ⟨fd, 0⟩
      (fun _ => rfl) rfl c.fds fd')).trans ?_
  split <;> rfl

/-- The descriptors of the first table. -/
def Config.descriptors (c : Config) : List ℤ := c.fds.map (·.fd)

theorem nodup_rememberFd (h : c.descriptors.Nodup) (protocol : ℤ) :
    (c.rememberFd fd protocol).descriptors.Nodup :=
  keys_update NetlinkRouteFd.fd (fun e => { e with protocol := protocol }) ⟨fd, 0⟩
    (fun _ => rfl) rfl c.fds h

/-- A descriptor that is forgotten is found no more, and the others are as before. -/
theorem forgetFd_spec (h : c.descriptors.Nodup) (fd' : ℤ) :
    (c.forgetFd fd).descriptors.Nodup ∧
      (c.forgetFd fd).protocol fd' = if fd' = fd then none else c.protocol fd' := by
  rw [Config.forgetFd]
  cases hfound : c.fds.findIdx? (·.fd == fd) with
  | none =>
    refine ⟨h, ?_⟩
    dsimp only
    split
    · rename_i hsame
      rw [hsame, Config.protocol, List.find?_eq_none.2, Option.map_none]
      intro e he
      rw [List.findIdx?_eq_none_iff.1 hfound e he]
      exact Bool.false_ne_true
    · rfl
  | some i =>
    obtain ⟨hlt, hkey, -⟩ := List.findIdx?_eq_some_iff_getElem.1 hfound
    rw [beq_iff_eq] at hkey
    have hperm := Slots.swapRemove_perm hlt
    have hnodup : ((Slots.swapRemove c.fds i).map (·.fd)).Nodup := by
      rw [(hperm.map _).nodup_iff, ← List.eraseIdx_map]
      exact h.sublist (List.eraseIdx_sublist _ i)
    refine ⟨hnodup, ?_⟩
    have hmem : ∀ e, e ∈ Slots.swapRemove c.fds i ↔ e ∈ c.fds ∧ e.fd ≠ fd := by
      intro e
      rw [hperm.mem_iff, List.mem_eraseIdx_iff_getElem]
      constructor
      · rintro ⟨j, hj, hne, rfl⟩
        refine ⟨List.getElem_mem hj, fun hsame => hne ?_⟩
        have heq : c.fds[j] = c.fds[i] := List.inj_on_of_nodup_map h (List.getElem_mem hj)
          (List.getElem_mem hlt) (hsame.trans hkey.symm)
        exact (List.Nodup.of_map _ h).getElem_inj_iff.1 heq
      · rintro ⟨hmem, hne⟩
        obtain ⟨j, hj, rfl⟩ := List.getElem_of_mem hmem
        refine ⟨j, hj, ?_, rfl⟩
        rintro rfl
        exact hne hkey
    have hfind : ∀ x, (Slots.swapRemove c.fds i).find? (·.fd == fd') = some x ↔
        x ∈ c.fds ∧ x.fd ≠ fd ∧ x.fd = fd' := by
      intro x
      rw [find?_eq_some_of_nodup NetlinkRouteFd.fd hnodup, hmem, and_assoc]
    change Option.map _ ((Slots.swapRemove c.fds i).find? (·.fd == fd')) = _
    split
    · rename_i hsame
      cases hx : (Slots.swapRemove c.fds i).find? (·.fd == fd') with
      | none => rfl
      | some x =>
        obtain ⟨-, hne, heq⟩ := (hfind x).1 hx
        exact absurd (heq.trans hsame) hne
    · rename_i hother
      rw [Config.protocol]
      congr 1
      apply Option.ext
      intro x
      rw [hfind, find?_eq_some_of_nodup NetlinkRouteFd.fd h]
      constructor
      · exact fun hx => ⟨hx.1, hx.2.2⟩
      · exact fun hx => ⟨hx.1, fun hsame => hother (hx.2.symm.trans hsame), hx.2⟩

theorem getPending_changePending {change : PendingReply → PendingReply}
    (hchange : ∀ p, (change p).fd = p.fd) :
    (c.changePending fd change).getPending fd' =
      if fd' = fd then some (change ((c.getPending fd).getD ⟨fd, [], 0⟩)) else c.getPending fd' :=
  find?_update PendingReply.fd change ⟨fd, [], 0⟩ hchange rfl c.pending fd'

theorem unread_changePending {change : PendingReply → PendingReply}
    (hchange : ∀ p, (change p).fd = p.fd) :
    (c.changePending fd change).unread fd' =
      if fd' = fd then
        let p := change ((c.getPending fd).getD ⟨fd, [], 0⟩)
        p.buf.drop p.off
      else c.unread fd' := by
  rw [Config.unread, getPending_changePending hchange]
  split
  · rename_i hsome
    split at hsome
    · rename_i hsame
      cases hsome
      rw [if_pos hsame]
    · rename_i hother
      rw [if_neg hother, Config.unread, hsome]
  · rename_i hnone
    split at hnone
    · cases hnone
    · rename_i hother
      rw [if_neg hother, Config.unread, hnone]

/-- The tables agree with the sockets and with the replies. -/
structure State.Inv (s : State) : Prop where
  nodup : s.config.descriptors.Nodup
  protocol : ∀ fd, s.config.protocol fd =
    (s.sockets fd).bind fun socket => if socket.1 = afNetlink then some socket.2 else none
  unread : ∀ fd, s.config.unread fd = s.outstanding fd
  closed : ∀ fd, s.sockets fd ≠ some (afNetlink, netlinkRoute) → s.outstanding fd = []
  packed : ∀ fd, s.outstanding fd ≠ [] → ∃ m ms, s.outstanding fd = pack (m :: ms)

/-! ### Conditions -/

/-- The host gives a descriptor that is not in use. -/
def State.KernelAnswers (s : State) : Event → Prop
  | .socket _ _ result => 0 ≤ result → s.sockets result = none
  | _ => True

/-- The condition on a receive: the socket has never had an entry, or something of a reply is left,
there is a buffer that can be written, and what does not fit begins with a message. -/
def State.ReceiveSound (s : State) (fd : ℤ) (size : ℕ) (writable : Bool) : Prop :=
  s.config.getPending fd = none ∨
    (s.outstanding fd ≠ [] ∧ 0 < size ∧ writable = true ∧
      (size < (s.outstanding fd).length → ∃ m ms, (s.outstanding fd).drop size = pack (m :: ms)))

/-- The length of the buffer that a receive writes. -/
def Event.size : Event → ℕ
  | .recvfrom e => if e.bufPtr = 0 then 0 else e.bufLen.toNat
  | .recvmsg e =>
    match e.iov with
    | some (iovLen :: _) => iovLen.toNat
    | _ => 0
  | _ => 0

/-- The call is a receive. -/
def Event.Receives : Event → Prop
  | .recvfrom _ | .recvmsg _ => True
  | _ => False

/-- The condition on a call.  A reply finds none that is outstanding on its socket, and the length
of an emulated request does not look like a refusal. -/
def State.Sound (s : State) (e : Event) : Prop :=
  match e with
  | .sendto e => s.config.isRouteFd e.fd = true → ∀ hdr, e.header = some hdr →
      (buildReplyForRequest hdr e.atEnter ≠ none →
        s.outstanding e.fd = [] ∧ ¬ Refused e.bufLen) ∧
      (buildReplyForRequest hdr e.atEnter = none → Refused e.hostResult →
        buildReplyForRequest hdr e.atExit ≠ none → s.outstanding e.fd = [])
  | .recvfrom r => s.config.isRouteFd r.fd = true → s.ReceiveSound r.fd e.size r.writable
  | .recvmsg r => s.config.isRouteFd r.fd = true → s.ReceiveSound r.fd e.size r.writable
  | _ => True

/-- What a call keeps to.  The extension knows the route sockets; it answers each receive on one
of them, with `EAGAIN` where nothing is outstanding and with the next part of it where something
is; what is not cut off begins with a message; and a closed descriptor has nothing. -/
structure State.Kept (s : State) (e : Event) : Prop where
  tracked : ∀ fd, s.config.isRouteFd fd = true ↔ s.sockets fd = some (afNetlink, netlinkRoute)
  closed : ∀ fd, s.sockets fd = none → s.config.unread fd = []
  answered : e.Receives → s.config.isRouteFd e.fd = true → s.answer e ≠ .host
  eagain : e.Receives → s.config.isRouteFd e.fd = true →
    (s.answer e = .eagain ↔ s.outstanding e.fd = [])
  served : ∀ data, s.answer e = .served data → data ≠ [] ∧ data <+: s.outstanding e.fd ∧
    data.length ≤ e.size
  header : ∀ data, s.answer e = .served data → data = s.outstanding e.fd →
    ∃ m : Message, m.header <+: data

/-! ### Messages -/

/-- A reply begins with its first message. -/
theorem encode_isPrefix_pack (m : Message) (ms : List Message) : m.encode <+: pack (m :: ms) := by
  have hgrows : ∀ (ms : List Message) (out : Bytes),
      out <+: ms.foldl (fun out m => align out ++ m.encode) out := by
    intro ms
    induction ms with
    | nil => exact fun out => List.prefix_rfl
    | cons m ms ih =>
      intro out
      have hnext : out <+: align out ++ m.encode := by
        rw [align, List.append_assoc]
        exact List.prefix_append _ _
      exact hnext.trans (ih _)
  exact hgrows ms m.encode

theorem header_isPrefix_pack (m : Message) (ms : List Message) : m.header <+: pack (m :: ms) :=
  (List.prefix_append _ _).trans (encode_isPrefix_pack m ms)

/-- A reply has a message. -/
theorem exists_cons_of_build {hdr : Nlmsghdr} {host : Interfaces} {reply : List Message}
    (h : buildReplyForRequest hdr host = some reply) : ∃ m ms, reply = m :: ms := by
  have hbuild : ∀ (type : ℕ) (payloads : List Bytes), ∃ m ms,
      buildReply type hdr payloads = m :: ms := by
    intro type payloads
    exact List.exists_cons_of_ne_nil (List.append_ne_nil_of_right_ne_nil _ (List.cons_ne_nil _ _))
  rw [buildReplyForRequest] at h
  split at h
  · obtain ⟨payloads, -, rfl⟩ := Option.map_eq_some_iff.1 h
    exact hbuild 16 payloads
  · split at h
    · obtain ⟨payloads, -, rfl⟩ := Option.map_eq_some_iff.1 h
      exact hbuild 20 payloads
    · cases h

/-! ### Requests -/

variable {s : State} {header : Option Nlmsghdr} {host : Interfaces}

/-- What a request leaves: the sockets as they are, and a reply in the place of what was left. -/
theorem answerRequest_spec (c : Config) (fd : ℤ) (header : Option Nlmsghdr) (host : Interfaces) :
    (c.answerRequest fd header host).1.fds = c.fds ∧
      ∀ fd', (c.answerRequest fd header host).1.unread fd' =
        match (c.answerRequest fd header host).2 with
        | some reply => if fd' = fd then pack reply else c.unread fd'
        | none => c.unread fd' := by
  rw [Config.answerRequest.eq_def]
  split
  swap
  · exact ⟨rfl, fun _ => rfl⟩
  cases header with
  | none => exact ⟨rfl, fun _ => rfl⟩
  | some hdr =>
    dsimp only
    cases buildReplyForRequest hdr host with
    | none =>
      refine ⟨rfl, fun fd' => ?_⟩
      dsimp only
      rw [unread_changePending]
      · split
        · rename_i hsame
          rw [hsame, Config.unread]
          cases c.getPending fd <;> rfl
        · rfl
      · exact fun _ => rfl
    | some reply =>
      refine ⟨rfl, fun fd' => ?_⟩
      dsimp only
      rw [unread_changePending]
      · rfl
      · exact fun _ => rfl

/-- When a request is answered. -/
theorem answerRequest_eq_some {reply : List Message} :
    (c.answerRequest fd header host).2 = some reply ↔ c.isRouteFd fd = true ∧
      ∃ hdr, header = some hdr ∧ buildReplyForRequest hdr host = some reply := by
  rw [Config.answerRequest.eq_def]
  cases hroute : c.isRouteFd fd with
  | false => simp
  | true =>
    cases header with
    | none => simp
    | some hdr =>
      cases hbuild : buildReplyForRequest hdr host <;> simp [hbuild]

/-! ### Receives -/

/-- A receive with a buffer of some size. -/
def Config.receiveInto (c : Config) (fd : ℤ) (size : ℕ) (writable : Bool) : Config × Answer :=
  c.receive fd fun p =>
    if p.buf.length ≤ p.off ∨ size = 0 then (c, .host) else c.serve p size writable

theorem call_recvfrom (c : Config) (e : Recvfrom) :
    c.call (.recvfrom e) = ((c.receiveInto e.fd (Event.recvfrom e).size e.writable).1,
      (c.receiveInto e.fd (Event.recvfrom e).size e.writable).2, []) := by
  have hserve : ∀ p, c.servePendingRecvfrom p e =
      if p.buf.length ≤ p.off ∨ (Event.recvfrom e).size = 0 then (c, .host)
      else c.serve p (Event.recvfrom e).size e.writable := by
    intro p
    rw [Config.servePendingRecvfrom, Event.size]
    by_cases hptr : e.bufPtr = 0
    · simp [hptr]
    · by_cases hlen : e.bufLen = 0
      · simp [hlen]
      · have hsize : e.bufLen.toNat ≠ 0 := fun h => hlen (UInt64.toNat_inj.1 h)
        simp [hptr, hlen, hsize]
  rw [Config.call, Config.receiveInto]
  simp only [hserve]

theorem call_recvmsg (c : Config) (e : Recvmsg) :
    c.call (.recvmsg e) = ((c.receiveInto e.fd (Event.recvmsg e).size e.writable).1,
      (c.receiveInto e.fd (Event.recvmsg e).size e.writable).2, []) := by
  have hserve : ∀ p, c.servePendingRecvmsg p e =
      if p.buf.length ≤ p.off ∨ (Event.recvmsg e).size = 0 then (c, .host)
      else c.serve p (Event.recvmsg e).size e.writable := by
    intro p
    rw [Config.servePendingRecvmsg, Event.size]
    cases e.iov with
    | none => simp
    | some iov =>
      cases iov with
      | nil => simp
      | cons iovLen rest =>
        by_cases hlen : iovLen = 0
        · simp [hlen]
        · have hsize : iovLen.toNat ≠ 0 := fun h => hlen (UInt64.toNat_inj.1 h)
          simp [hlen, hsize]
  rw [Config.call, Config.receiveInto]
  simp only [hserve]

/-- A receive: it takes what is left, up to the size of the buffer, or nothing at all. -/
theorem receiveInto_spec (c : Config) (fd : ℤ) (size : ℕ) (writable : Bool) :
    (c.receiveInto fd size writable).1.fds = c.fds ∧
      ((c.receiveInto fd size writable).2 = .served ((c.unread fd).take size) ∧
          c.unread fd ≠ [] ∧ 0 < size ∧ writable = true ∧
          (∀ fd', (c.receiveInto fd size writable).1.unread fd' =
            if fd' = fd then (c.unread fd).drop size else c.unread fd') ∨
        (∀ fd', (c.receiveInto fd size writable).1.unread fd' = c.unread fd') ∧
          (c.receiveInto fd size writable).2 =
            (if c.getPending fd = none ∧ c.isRouteFd fd = true then .eagain else .host) ∧
          (c.getPending fd = none ∨ c.unread fd = [] ∨ size = 0 ∨ writable = false)) := by
  rw [Config.receiveInto, Config.receive]
  cases hp : c.getPending fd with
  | none =>
    refine ⟨?_, .inr ?_⟩
    · cases c.isRouteFd fd <;> rfl
    · cases c.isRouteFd fd
      · exact ⟨fun _ => rfl, by simp, .inl rfl⟩
      · exact ⟨fun _ => rfl, by simp, .inl rfl⟩
  | some p =>
    have hfd : p.fd = fd := by
      simpa only [beq_iff_eq] using List.find?_some hp
    have hunread : c.unread fd = p.buf.drop p.off := by rw [Config.unread, hp]
    have hno : ¬ (some p = none ∧ c.isRouteFd fd = true) := fun h => nomatch h.1
    dsimp only
    rw [if_neg hno, hunread]
    by_cases hempty : p.buf.length ≤ p.off ∨ size = 0
    · rw [if_pos hempty]
      refine ⟨rfl, .inr ⟨fun _ => rfl, rfl, ?_⟩⟩
      obtain hempty | hempty := hempty
      · exact .inr (.inl (List.drop_eq_nil_of_le hempty))
      · exact .inr (.inr (.inl hempty))
    rw [if_neg hempty, Config.serve]
    cases writable with
    | false => exact ⟨rfl, .inr ⟨fun _ => rfl, rfl, .inr (.inr (.inr rfl))⟩⟩
    | true =>
      refine ⟨rfl, .inl ⟨?_, ?_, by omega, rfl, ?_⟩⟩
      · change Answer.served ((p.buf.drop p.off).take (min (p.buf.drop p.off).length size)) = _
        rw [Nat.min_comm, ← List.take_eq_take_min]
      · rw [ne_eq, List.drop_eq_nil_iff]
        omega
      · intro fd'
        have hlength : (p.buf.drop p.off).length = p.buf.length - p.off := List.length_drop
        simp only [Bool.not_true, Bool.false_eq_true, if_false]
        rw [unread_changePending, hfd, hp, Option.getD_some, List.drop_drop]
        · split
          · dsimp only
            split
            · exact (List.drop_eq_nil_of_le (by omega)).symm
            · congr 1
              change p.off + min (p.buf.drop p.off).length size = p.off + size
              omega
          · rfl
        · intro p
          split <;> rfl

/-! ### One call -/

variable {e : Event}

theorem State.Inv.tracked (h : s.Inv) (fd : ℤ) :
    s.config.isRouteFd fd = true ↔ s.sockets fd = some (afNetlink, netlinkRoute) := by
  rw [isRouteFd_iff, h.protocol]
  cases s.sockets fd with
  | none => simp
  | some socket =>
    obtain ⟨domain, protocol⟩ := socket
    rw [Option.bind_some, Option.some.injEq, Prod.mk.injEq]
    by_cases hdomain : domain = afNetlink
    · rw [if_pos hdomain, Option.some.injEq]
      exact ⟨fun h => ⟨hdomain, h⟩, fun h => h.2⟩
    · rw [if_neg hdomain]
      exact ⟨(fun h => nomatch h), fun h => absurd h.1 hdomain⟩

/-- A call that leaves the first table and the sockets keeps the invariant with the replies. -/
theorem State.Inv.of_fds {s' : State} (h : s.Inv) (hfds : s'.config.fds = s.config.fds)
    (hsockets : s'.sockets = s.sockets) (hunread : ∀ fd, s'.config.unread fd = s'.outstanding fd)
    (hclosed : ∀ fd, s.sockets fd ≠ some (afNetlink, netlinkRoute) → s'.outstanding fd = [])
    (hpacked : ∀ fd, s'.outstanding fd ≠ [] → ∃ m ms, s'.outstanding fd = pack (m :: ms)) :
    s'.Inv := by
  refine ⟨?_, ?_, hunread, ?_, hpacked⟩
  · rw [Config.descriptors, hfds]
    exact h.nodup
  · intro fd
    rw [Config.protocol, hfds, hsockets]
    exact h.protocol fd
  · rw [hsockets]
    exact hclosed

/-- A call that is no receive keeps to the rest. -/
theorem State.Inv.kept (h : s.Inv) (hreceives : ¬ e.Receives)
    (hanswer : ∀ data, s.answer e ≠ .served data) : s.Kept e where
  tracked := h.tracked
  closed fd hfd := by rw [h.unread, h.closed fd (by rw [hfd]; exact nofun)]
  answered hyes := absurd hyes hreceives
  eagain hyes := absurd hyes hreceives
  served data hdata := absurd hdata (hanswer data)
  header data hdata := absurd hdata (hanswer data)

theorem outstanding_socket (s : State) (domain protocol result : ℤ) :
    (s.step (.socket domain protocol result)).outstanding = s.outstanding := by
  change Function.update s.outstanding result (s.outstanding result ++ []) = _
  rw [List.append_nil, Function.update_eq_self]

theorem State.Inv.socket (h : s.Inv) {domain protocol result : ℤ}
    (hkernel : s.KernelAnswers (.socket domain protocol result)) :
    (s.step (.socket domain protocol result)).Inv := by
  have hunread : ∀ fd, (s.config.handleSocketExit domain protocol result).unread fd =
      s.config.unread fd := by
    intro fd
    rw [Config.handleSocketExit]
    split
    · rfl
    · split <;> rfl
  have hsockets : ∀ fd, (s.step (.socket domain protocol result)).sockets fd =
      if result < 0 then s.sockets fd
      else if fd = result then some (domain, protocol) else s.sockets fd := by
    intro fd
    change s.socketsAfter (.socket domain protocol result) fd = _
    rw [State.socketsAfter]
    split
    · rfl
    · rw [Function.update_apply]
  refine ⟨?_, ?_, ?_, ?_, ?_⟩
  · change (s.config.handleSocketExit domain protocol result).descriptors.Nodup
    rw [Config.handleSocketExit]
    split
    · exact h.nodup
    · split
      · exact nodup_rememberFd h.nodup protocol
      · exact h.nodup
  · intro fd
    change (s.config.handleSocketExit domain protocol result).protocol fd = _
    rw [hsockets, Config.handleSocketExit]
    by_cases herror : result < 0
    · rw [if_pos herror, if_pos herror]
      exact h.protocol fd
    · rw [if_neg herror, if_neg herror]
      by_cases hfd : fd = result
      · rw [if_pos hfd, Option.bind_some]
        by_cases hdomain : domain = afNetlink
        · rw [if_pos hdomain, if_pos hdomain, protocol_rememberFd, if_pos hfd]
        · rw [if_neg hdomain, if_neg hdomain, h.protocol, hfd, hkernel (by omega)]
          rfl
      · rw [if_neg hfd, ← h.protocol]
        split
        · rw [protocol_rememberFd, if_neg hfd]
        · rfl
  · intro fd
    rw [outstanding_socket, ← h.unread]
    exact hunread fd
  · intro fd hfd
    rw [outstanding_socket]
    apply h.closed
    rw [hsockets] at hfd
    split at hfd
    · exact hfd
    · rename_i hsuccess
      split at hfd
      · rename_i hsame
        rw [hsame, hkernel (by omega)]
        exact nofun
      · exact hfd
  · rw [outstanding_socket]
    exact h.packed

theorem unread_forgetFd (c : Config) (fd fd' : ℤ) : (c.forgetFd fd).unread fd' = c.unread fd' := by
  rw [Config.forgetFd]
  split <;> rfl

theorem State.Inv.close (h : s.Inv) (fd : ℤ) : (s.step (.close fd)).Inv := by
  have hforget : ∀ c : Config, c.fds = s.config.fds →
      (c.forgetFd fd).descriptors.Nodup ∧ ∀ fd', (c.forgetFd fd).protocol fd' =
        if fd' = fd then none else s.config.protocol fd' := by
    intro c hfds
    have hnodup : c.descriptors.Nodup := by
      rw [Config.descriptors, hfds]
      exact h.nodup
    refine ⟨(forgetFd_spec hnodup 0).1, fun fd' => ?_⟩
    rw [(forgetFd_spec hnodup fd').2, Config.protocol, hfds]
    rfl
  have hspec : (s.config.handleCloseEnter fd).descriptors.Nodup ∧
      (∀ fd', (s.config.handleCloseEnter fd).protocol fd' =
        if fd' = fd then none else s.config.protocol fd') ∧
      ∀ fd', (s.config.handleCloseEnter fd).unread fd' =
        if fd' = fd then [] else s.config.unread fd' := by
    rw [Config.handleCloseEnter]
    cases hp : s.config.getPending fd with
    | none =>
      obtain ⟨hnodup, hprotocol⟩ := hforget s.config rfl
      refine ⟨hnodup, hprotocol, fun fd' => ?_⟩
      dsimp only
      rw [unread_forgetFd]
      split
      · rename_i hsame
        rw [hsame, Config.unread, hp]
      · rfl
    | some p =>
      obtain ⟨hnodup, hprotocol⟩ := hforget (s.config.changePending fd PendingReply.clear) rfl
      refine ⟨hnodup, hprotocol, fun fd' => ?_⟩
      dsimp only
      rw [unread_forgetFd, unread_changePending]
      · rfl
      · exact fun _ => rfl
  obtain ⟨hnodup, hprotocol, hunread⟩ := hspec
  have hsockets : ∀ fd', (s.step (.close fd)).sockets fd' =
      if fd' = fd then none else s.sockets fd' := by
    intro fd'
    change Function.update s.sockets fd none fd' = _
    rw [Function.update_apply]
  have houtstanding : ∀ fd', (s.step (.close fd)).outstanding fd' =
      if fd' = fd then [] else s.outstanding fd' := by
    intro fd'
    change Function.update s.outstanding fd [] fd' = _
    rw [Function.update_apply]
  refine ⟨hnodup, ?_, ?_, ?_, ?_⟩
  · intro fd'
    rw [hsockets]
    refine (hprotocol fd').trans ?_
    split
    · rfl
    · exact h.protocol fd'
  · intro fd'
    rw [houtstanding]
    refine (hunread fd').trans ?_
    split
    · rfl
    · exact h.unread fd'
  · intro fd' hfd'
    rw [hsockets] at hfd'
    rw [houtstanding]
    split
    · rfl
    · rename_i hother
      rw [if_neg hother] at hfd'
      exact h.closed fd' hfd'
  · intro fd'
    rw [houtstanding]
    split
    · exact fun hne => absurd rfl hne
    · exact h.packed fd'

/-- What is outstanding behind a call that serves nothing. -/
theorem outstanding_step (s : State) {e : Event} (hclose : ∀ fd, e ≠ .close fd)
    (hserved : ∀ data, s.answer e ≠ .served data) (fd : ℤ) :
    (s.step e).outstanding fd =
      if fd = e.fd then s.outstanding e.fd ++ (s.config.call e).2.2.flatMap pack
      else s.outstanding fd := by
  change s.outstandingAfter e fd = _
  rw [State.answer] at hserved
  rw [State.outstandingAfter]
  generalize s.config.call e = called at hserved ⊢
  obtain ⟨c, answer, stored⟩ := called
  dsimp only at hserved ⊢
  rw [Function.update_apply]
  split
  · cases e with
    | close fd => exact absurd rfl (hclose fd)
    | socket | sendto | recvfrom | recvmsg =>
      cases answer with
      | served data => exact absurd rfl (hserved data)
      | host | eagain | sent => rfl
  · rfl

/-- What a call of `sendto` stores: nothing, or one reply on a socket that has none. -/
theorem sendto_cases (h : s.Inv) {r : Sendto} (hsound : s.Sound (.sendto r)) :
    (s.config.call (.sendto r)).1.fds = s.config.fds ∧
      ((s.config.call (.sendto r)).2.2 = [] ∧
          (∀ fd, (s.config.call (.sendto r)).1.unread fd = s.config.unread fd) ∨
        ∃ m ms, (s.config.call (.sendto r)).2.2 = [m :: ms] ∧
          s.sockets r.fd = some (afNetlink, netlinkRoute) ∧ s.outstanding r.fd = [] ∧
          ∀ fd, (s.config.call (.sendto r)).1.unread fd =
            if fd = r.fd then pack (m :: ms) else s.config.unread fd) := by
  have hsocket := (h.tracked r.fd).1
  obtain ⟨hfds, hunread⟩ := answerRequest_spec s.config r.fd r.header r.atEnter
  rw [Config.call, Config.handleSendtoEnter]
  obtain ⟨c₁, hc₁⟩ : ∃ c₁, (s.config.answerRequest r.fd r.header r.atEnter).1 = c₁ := ⟨_, rfl⟩
  rw [hc₁] at hfds hunread
  cases hfirst : (s.config.answerRequest r.fd r.header r.atEnter).2 with
  | some reply =>
    obtain ⟨hroute, hdr, hheader, hbuild⟩ := answerRequest_eq_some.1 hfirst
    obtain ⟨hnone, hlength⟩ := (hsound hroute hdr hheader).1
      (by rw [hbuild]; exact Option.some_ne_none _)
    obtain ⟨m, ms, rfl⟩ := exists_cons_of_build hbuild
    have hsplit : s.config.answerRequest r.fd r.header r.atEnter = (c₁, some (m :: ms)) :=
      Prod.ext hc₁ hfirst
    rw [hfirst] at hunread
    rw [hsplit]
    simp only [Option.isSome_some, if_true]
    rw [Config.handleSendtoExit, if_neg hlength]
    exact ⟨hfds, .inr ⟨m, ms, rfl, hsocket hroute, hnone, hunread⟩⟩
  | none =>
    have hsplit : s.config.answerRequest r.fd r.header r.atEnter = (c₁, none) :=
      Prod.ext hc₁ hfirst
    rw [hfirst] at hunread
    rw [hsplit]
    simp only [Option.isSome_none, Bool.false_eq_true, if_false]
    rw [Config.handleSendtoExit]
    by_cases hrefused : Refused r.hostResult
    swap
    · rw [if_neg hrefused]
      exact ⟨hfds, .inl ⟨rfl, hunread⟩⟩
    rw [if_pos hrefused]
    obtain ⟨hfds', hunread'⟩ := answerRequest_spec c₁ r.fd r.header r.atExit
    cases hsecond : (c₁.answerRequest r.fd r.header r.atExit).2 with
    | none =>
      rw [hsecond] at hunread'
      exact ⟨hfds'.trans hfds, .inl ⟨rfl, fun fd => (hunread' fd).trans (hunread fd)⟩⟩
    | some reply =>
      obtain ⟨hroute, hdr, hheader, hbuild⟩ := answerRequest_eq_some.1 hsecond
      have hroute' : s.config.isRouteFd r.fd = true := by
        rw [Config.isRouteFd, ← hfds]
        exact hroute
      have hfails : buildReplyForRequest hdr r.atEnter = none := by
        cases hbuild' : buildReplyForRequest hdr r.atEnter with
        | none => rfl
        | some reply' =>
          rw [answerRequest_eq_some.2 ⟨hroute', hdr, hheader, hbuild'⟩] at hfirst
          cases hfirst
      have hnone := (hsound hroute' hdr hheader).2 hfails hrefused
        (by rw [hbuild]; exact Option.some_ne_none _)
      obtain ⟨m, ms, rfl⟩ := exists_cons_of_build hbuild
      rw [hsecond] at hunread'
      refine ⟨hfds'.trans hfds, .inr ⟨m, ms, rfl, hsocket hroute', hnone, fun fd => ?_⟩⟩
      refine (hunread' fd).trans ?_
      dsimp only
      rw [hunread]

theorem sendto_not_served (s : State) (r : Sendto) (data : Bytes) :
    s.answer (.sendto r) ≠ .served data := by
  have hends : s.answer (.sendto r) = .sent ∨ s.answer (.sendto r) = .host := by
    rw [State.answer, Config.call]
    exact ite_eq_or_eq _ _ _
  obtain hsent | hhost := hends
  · rw [hsent]
    exact nofun
  · rw [hhost]
    exact nofun

theorem State.Inv.sendto (h : s.Inv) {r : Sendto} (hsound : s.Sound (.sendto r)) :
    (s.step (.sendto r)).Inv := by
  obtain ⟨hfds, hstored⟩ := sendto_cases h hsound
  have houtstanding := outstanding_step s (e := .sendto r) nofun (sendto_not_served s r)
  obtain ⟨hnothing, hunread⟩ | ⟨m, ms, hreply, hsocket, hnone, hunread⟩ := hstored
  · have hsame : (s.step (.sendto r)).outstanding = s.outstanding := by
      funext fd
      refine (houtstanding fd).trans ?_
      rw [hnothing, List.flatMap_nil, List.append_nil]
      split
      · rename_i hfd
        rw [hfd]
      · rfl
    refine h.of_fds hfds rfl ?_ ?_ ?_
    · intro fd
      rw [hsame, ← h.unread]
      exact hunread fd
    · rw [hsame]
      exact h.closed
    · rw [hsame]
      exact h.packed
  · have hnext : ∀ fd, (s.step (.sendto r)).outstanding fd =
        if fd = r.fd then pack (m :: ms) else s.outstanding fd := by
      intro fd
      refine (houtstanding fd).trans ?_
      rw [hreply, List.flatMap_singleton]
      change (if fd = r.fd then s.outstanding r.fd ++ _ else _) = _
      rw [hnone, List.nil_append]
    refine h.of_fds hfds rfl ?_ ?_ ?_
    · intro fd
      rw [hnext, ← h.unread]
      exact hunread fd
    · intro fd hfd
      rw [hnext, if_neg]
      · exact h.closed fd hfd
      · rintro rfl
        exact hfd hsocket
    · intro fd
      rw [hnext]
      split
      · exact fun _ => ⟨m, ms, rfl⟩
      · exact h.packed fd

/-- What a receive does to the replies. -/
theorem outstanding_receive {writable : Bool}
    (hcall : s.config.call e = ((s.config.receiveInto e.fd e.size writable).1,
      (s.config.receiveInto e.fd e.size writable).2, [])) (hreceives : e.Receives) (fd : ℤ) :
    (s.step e).outstanding fd =
      if fd = e.fd then
        match (s.config.receiveInto e.fd e.size writable).2 with
        | .served data => (s.outstanding e.fd).drop data.length
        | _ => s.outstanding e.fd
      else s.outstanding fd := by
  change s.outstandingAfter e fd = _
  rw [State.outstandingAfter, hcall]
  dsimp only
  rw [Function.update_apply]
  split
  · cases e with
    | recvfrom | recvmsg =>
      rw [List.flatMap_nil]
      cases (s.config.receiveInto _ _ writable).2 <;> exact List.append_nil _
    | socket | close | sendto => exact hreceives.elim
  · rfl

theorem State.Inv.receive (h : s.Inv) {writable : Bool}
    (hcall : s.config.call e = ((s.config.receiveInto e.fd e.size writable).1,
      (s.config.receiveInto e.fd e.size writable).2, [])) (hreceives : e.Receives)
    (hsound : s.config.isRouteFd e.fd = true → s.ReceiveSound e.fd e.size writable) :
    (s.step e).Inv ∧ s.Kept e := by
  have houtstanding := outstanding_receive hcall hreceives
  have hconfig : (s.step e).config = (s.config.receiveInto e.fd e.size writable).1 := by
    change (s.config.call e).1 = _
    rw [hcall]
  have hanswer : s.answer e = (s.config.receiveInto e.fd e.size writable).2 := by
    rw [State.answer, hcall]
  have hsockets : (s.step e).sockets = s.sockets := by
    cases e with
    | recvfrom | recvmsg => rfl
    | socket | close | sendto => exact hreceives.elim
  obtain ⟨hfds, ⟨hserved, hleft, hsize, hwritable, hunread⟩ | ⟨hunread, hother, hwhy⟩⟩ :=
    receiveInto_spec s.config e.fd e.size writable
  · rw [h.unread] at hserved hleft
    rw [← hanswer] at hserved
    have hdrop : ∀ bytes : Bytes, bytes.drop (bytes.take e.size).length = bytes.drop e.size := by
      intro bytes
      rw [List.length_take]
      by_cases hle : e.size ≤ bytes.length
      · rw [Nat.min_eq_left hle]
      · rw [Nat.min_eq_right (by omega), List.drop_length, List.drop_eq_nil_of_le (by omega)]
    have hnext : ∀ fd, (s.step e).outstanding fd =
        if fd = e.fd then (s.outstanding e.fd).drop e.size else s.outstanding fd := by
      intro fd
      rw [houtstanding, ← hanswer, hserved, ← hdrop]
    have hroute : s.config.isRouteFd e.fd = true := by
      rw [h.tracked]
      by_contra hother
      exact hleft (h.closed e.fd hother)
    constructor
    · refine h.of_fds (by rw [hconfig, hfds]) hsockets ?_ ?_ ?_
      · intro fd
        rw [hconfig, hunread, hnext, h.unread, h.unread]
      · intro fd hfd
        rw [hnext]
        split
        · rename_i hsame
          rw [hsame] at hfd
          rw [h.closed e.fd hfd, List.drop_nil]
        · exact h.closed fd hfd
      · intro fd
        rw [hnext]
        split
        · intro hrest
          obtain hnone | ⟨-, -, -, hfits⟩ := hsound hroute
          · refine absurd ?_ hleft
            rw [← h.unread, Config.unread, hnone]
          · apply hfits
            by_contra hle
            exact hrest (List.drop_eq_nil_of_le (by omega))
        · exact h.packed fd
    · refine ⟨h.tracked, fun fd hfd => ?_, fun _ _ => ?_, fun _ _ => ?_, ?_, ?_⟩
      · rw [h.unread, h.closed fd (by rw [hfd]; exact nofun)]
      · rw [hserved]
        exact nofun
      · rw [hserved]
        exact ⟨nofun, fun hnone => absurd hnone hleft⟩
      · intro data hdata
        rw [hserved, Answer.served.injEq] at hdata
        rw [← hdata]
        refine ⟨?_, List.take_prefix _ _, List.length_take_le _ _⟩
        rw [ne_eq, List.take_eq_nil_iff]
        exact fun hnil => hnil.elim (by omega) hleft
      · intro data _ hall
        obtain ⟨m, ms, hpack⟩ := h.packed e.fd hleft
        rw [hall, hpack]
        exact ⟨m, header_isPrefix_pack m ms⟩
  · rw [← hanswer] at hother
    have hserved : ∀ data, s.answer e ≠ .served data := by
      intro data
      rw [hother]
      split <;> exact nofun
    have hnext : ∀ fd, (s.step e).outstanding fd = s.outstanding fd := by
      intro fd
      rw [houtstanding, ← hanswer]
      split
      · rename_i hsame
        rw [hsame]
        cases ha : s.answer e with
        | served data => exact absurd ha (hserved data)
        | host | eagain | sent => rfl
      · rfl
    have hnone : s.config.isRouteFd e.fd = true → s.config.getPending e.fd = none := by
      intro hroute
      obtain hnone | ⟨hleft, hsize, hwritable, -⟩ := hsound hroute
      · exact hnone
      · rw [h.unread] at hwhy
        obtain hnone | hempty | hzero | hno := hwhy
        · exact hnone
        · exact absurd hempty hleft
        · exact absurd hzero (by omega)
        · exact absurd (hwritable.symm.trans hno) Bool.false_ne_true.symm
    constructor
    · refine h.of_fds (by rw [hconfig, hfds]) hsockets ?_ ?_ ?_
      · intro fd
        rw [hconfig, hunread, hnext, h.unread]
      · intro fd hfd
        rw [hnext]
        exact h.closed fd hfd
      · intro fd
        rw [hnext]
        exact h.packed fd
    · refine ⟨h.tracked, fun fd hfd => ?_, fun _ hroute => ?_, fun _ hroute => ?_, ?_, ?_⟩
      · rw [h.unread, h.closed fd (by rw [hfd]; exact nofun)]
      · rw [hother, if_pos ⟨hnone hroute, hroute⟩]
        exact nofun
      · rw [hother, if_pos ⟨hnone hroute, hroute⟩, ← h.unread, Config.unread, hnone hroute]
        exact ⟨fun _ => rfl, fun _ => rfl⟩
      · exact fun data hdata => absurd hdata (hserved data)
      · exact fun data hdata => absurd hdata (hserved data)

theorem State.Inv.step (h : s.Inv) (hkernel : s.KernelAnswers e) (hsound : s.Sound e) :
    (s.step e).Inv ∧ s.Kept e := by
  cases e with
  | socket domain protocol result =>
    exact ⟨h.socket hkernel, h.kept not_false fun data h => nomatch h⟩
  | close fd => exact ⟨h.close fd, h.kept not_false fun data h => nomatch h⟩
  | sendto r => exact ⟨h.sendto hsound, h.kept not_false (sendto_not_served s r)⟩
  | recvfrom r => exact h.receive (call_recvfrom s.config r) trivial hsound
  | recvmsg r => exact h.receive (call_recvmsg s.config r) trivial hsound

/-! ### Runs -/

theorem State.Inv.initial : State.initial.Inv where
  nodup := List.nodup_nil
  protocol _ := rfl
  unread _ := rfl
  closed _ _ := rfl
  packed _ hleft := absurd rfl hleft

/-- The route sockets of a run answer as queues of replies. -/
theorem replies_of_run (events : List Event)
    (hkernel : AllSteps State.step State.KernelAnswers State.initial events)
    (hsound : AllSteps State.step State.Sound State.initial events) :
    AllSteps State.step State.Kept State.initial events :=
  allSteps_of_invariant (fun _ _ h hstep => h.step hstep.1 hstep.2) State.Inv.initial
    ((allSteps_and State.KernelAnswers State.Sound State.initial events).2 ⟨hkernel, hsound⟩)

/-- The link of `lo`, with its name. -/
def loPayload : Bytes :=
  [0, 0, 4, 3, 1, 0, 0, 0, 73, 0, 0, 0, 0, 0, 0, 0, 7, 0, 3, 0, 108, 111, 0, 0]

/-- The link of `eth0`, with its name. -/
def eth0Payload : Bytes :=
  [0, 0, 1, 0, 2, 0, 0, 0, 67, 16, 0, 0, 0, 0, 0, 0, 9, 0, 3, 0, 101, 116, 104, 48, 0]

/-- A request for the links of a host that has two. -/
def linkRequest : Sendto :=
  ⟨3, some ⟨18, 1, 0⟩, 32, ⟨some [loPayload, eth0Payload], none⟩, ⟨some [], none⟩, 0⟩

/-- A socket, a request, a receive that takes the first link, and one that takes the rest. -/
def dump : List Event :=
  [.socket 16 0 3, .sendto linkRequest, .recvfrom ⟨3, 4096, 40, true⟩,
    .recvfrom ⟨3, 4096, 8192, true⟩]

theorem replies_of_run_dump : AllSteps State.step State.Kept State.initial dump := by
  apply replies_of_run
  · exact ⟨fun _ => rfl, trivial, trivial, trivial, trivial⟩
  · refine ⟨trivial, ?_, ?_, ?_, trivial⟩
    · intro _ hdr hheader
      cases hheader
      exact ⟨fun _ => by decide, fun hfails => absurd hfails (by decide)⟩
    · intro _
      refine .inr ⟨by decide +kernel, by decide +kernel, rfl, fun _ => ?_⟩
      exact ⟨⟨16, 2, 1, 0, eth0Payload⟩, [⟨3, 0, 1, 0, []⟩], by decide +kernel⟩
    · intro _
      exact .inr ⟨by decide +kernel, by decide +kernel, rfl,
        fun hlong => absurd hlong (by decide +kernel)⟩

/-- The entry of a socket stays behind its replies, and the next receive reaches the host. -/
theorem drained_reaches_host :
    ¬ ∀ events, AllSteps State.step State.KernelAnswers State.initial events →
      AllSteps State.step State.Kept State.initial events := by
  intro h
  have hkernel : AllSteps State.step State.KernelAnswers State.initial
      (dump ++ [.recvfrom ⟨3, 4096, 8192, true⟩]) :=
    ⟨fun _ => rfl, trivial, trivial, trivial, trivial, trivial⟩
  have hkept := h _ hkernel
  exact hkept.2.2.2.2.1.answered trivial (by decide +kernel) (by decide +kernel)

end NeoProot.NetlinkRoute
