import NeoProot.Syscall.NetlinkWellFormed
import NeoProot.Lib.Run

/-!
# How an answer is received

A receiving call gets the messages of an answer up to the end of a dump, and the next call gets
the end of the dump.  So the socket is a queue of at most two datagrams.

## Main definitions

* `datagrams` — the datagrams of some messages.
* `Holds` — what of an answer a socket still has.
* `queueStep` — the calls on a queue.

## Main results

* `answers_eq_queue` — the socket answers as the queue does.
* `taken_eq` — what is received of an answer.
-/

namespace NeoProot.Netlink
open LittleEndian RecordFormat Mem

variable {rs : List (List UInt8)} {sock : FakeNetlinkSocket}

/-! ### Datagrams -/

/-- The messages that the next receiving call gets. -/
def nextDatagram (rs : List (List UInt8)) : List (List UInt8) :=
  if rs.takeWhile goesOn = [] then rs else rs.takeWhile goesOn

/-- The messages that are left then. -/
def afterDatagram (rs : List (List UInt8)) : List (List UInt8) :=
  if rs.takeWhile goesOn = [] then [] else rs.dropWhile goesOn

/-- The datagrams of some messages. -/
def datagrams (rs : List (List UInt8)) : List (List (List UInt8)) :=
  [rs.takeWhile goesOn, rs.dropWhile goesOn].filter fun d => d ≠ []

@[simp] theorem datagrams_nil : datagrams [] = [] := rfl

theorem nextDatagram_append (rs : List (List UInt8)) :
    nextDatagram rs ++ afterDatagram rs = rs := by
  rw [nextDatagram, afterDatagram]
  split
  · rw [List.append_nil]
  · exact List.takeWhile_append_dropWhile

theorem nextDatagram_ne_nil (h : rs ≠ []) : nextDatagram rs ≠ [] := by
  rw [nextDatagram]
  split
  · exact h
  · assumption

/-- The end of a dump is a datagram of its own. -/
theorem datagrams_cons (h : rs ≠ []) :
    datagrams rs = nextDatagram rs :: datagrams (afterDatagram rs) := by
  have hsplit := List.takeWhile_append_dropWhile (p := goesOn) (l := rs)
  by_cases hfront : rs.takeWhile goesOn = []
  · rw [hfront, List.nil_append] at hsplit
    rw [nextDatagram, afterDatagram, if_pos hfront, if_pos hfront, datagrams, hfront, hsplit]
    simp [h]
  · have hback : (rs.dropWhile goesOn).takeWhile goesOn = [] := by
      cases hdrop : rs.dropWhile goesOn with
      | nil => rfl
      | cons r back =>
        have hstop := List.head?_dropWhile_not goesOn rs
        rw [hdrop, List.head?_cons] at hstop
        rw [List.takeWhile_cons, if_neg (by simpa using hstop)]
    have hrest : (rs.dropWhile goesOn).dropWhile goesOn = rs.dropWhile goesOn := by
      have hagain := List.takeWhile_append_dropWhile (p := goesOn) (l := rs.dropWhile goesOn)
      rwa [hback, List.nil_append] at hagain
    rw [nextDatagram, afterDatagram, if_neg hfront, if_neg hfront, datagrams, datagrams, hback,
      hrest]
    simp [hfront]

/-! ### The socket -/

namespace FakeNetlinkSocket

/-- What is left of the answer. -/
def rest (sock : FakeNetlinkSocket) : List UInt8 :=
  ((sock.reply.getD []).take sock.replyLen).drop sock.replyOff

/-- The socket still has some messages. -/
structure Holds (sock : FakeNetlinkSocket) (rs : List (List UInt8)) : Prop where
  records : ∀ r ∈ rs, messages.IsRecord r
  rest_eq : sock.rest = messages.pack rs
  length_eq : sock.rest.length = sock.replyLen - sock.replyOff

theorem holds_nil (h : sock.replyLen = 0) : sock.Holds [] where
  records r hr := by cases hr
  rest_eq := by
    rw [rest, h, List.take_zero, List.drop_nil]
    rfl
  length_eq := by
    rw [rest, h, List.take_zero, List.drop_nil, Nat.zero_sub]
    rfl

/-- A new answer. -/
theorem holds_answered (h : ∀ r ∈ rs, messages.IsRecord r) (sock : FakeNetlinkSocket) :
    (sock.answered (messages.pack rs)).Holds rs where
  records := h
  rest_eq := by
    rw [rest, answered, List.drop_zero]
    exact List.take_length
  length_eq := by
    rw [rest, answered, List.drop_zero]
    simp

end FakeNetlinkSocket

theorem pack_eq_nil_iff (h : ∀ r ∈ rs, messages.IsRecord r) : messages.pack rs = [] ↔ rs = [] := by
  refine ⟨fun hnil => ?_, fun hnil => by rw [hnil, pack_nil]⟩
  have hunpack := unpack_pack h
  rw [hnil, unpack_nil] at hunpack
  exact hunpack.symm

theorem nextDatagram_subset (rs : List (List UInt8)) : nextDatagram rs ⊆ rs := by
  have hsplit := nextDatagram_append rs
  exact fun r hr => hsplit ▸ List.mem_append_left _ hr

theorem afterDatagram_subset (rs : List (List UInt8)) : afterDatagram rs ⊆ rs := by
  have hsplit := nextDatagram_append rs
  exact fun r hr => hsplit ▸ List.mem_append_right _ hr

theorem pack_datagram (rs : List (List UInt8)) :
    messages.pack rs =
      messages.pack (nextDatagram rs) ++ messages.pack (afterDatagram rs) := by
  rw [← pack_append, nextDatagram_append]

theorem headerOf_record {record : List UInt8} (rest : List UInt8)
    (h : nlmsgHdrlen ≤ record.length) : headerOf (record ++ rest) = headerOf record := by
  rw [headerOf, headerOf, take_of_append h]

/-- What is parsed is the next datagram. -/
theorem fakeNetlinkDatagramLen_pack (h : ∀ r ∈ rs, messages.IsRecord r) :
    fakeNetlinkDatagramLen (messages.pack rs) = (messages.pack (nextDatagram rs)).length := by
  have hstop : ∀ record rest, messages.header ≤ record.length →
      decide ((headerOf (record ++ rest)).type = nlmsgDone) =
        decide ((headerOf record).type = nlmsgDone) := by
    intro record rest hlong
    rw [headerOf_record rest hlong]
  have hwalk := messages.walkUntil_pack
    (fun bytes => decide ((headerOf bytes).type = nlmsgDone)) hstop h
  have hgoes : (rs.takeWhile fun r => !decide ((headerOf r).type = nlmsgDone)) =
      rs.takeWhile goesOn := by
    congr 1
    funext r
    simp [goesOn]
  have hfront : ∀ r ∈ rs.takeWhile goesOn, messages.IsRecord r :=
    fun r hr => h r ((List.takeWhile_sublist goesOn).subset hr)
  have hle : (messages.pack (rs.takeWhile goesOn)).length ≤ (messages.pack rs).length := by
    have hsplit := congrArg (fun rs => (messages.pack rs).length)
      (List.takeWhile_append_dropWhile (p := goesOn) (l := rs))
    rw [pack_append, List.length_append] at hsplit
    omega
  rw [hgoes] at hwalk
  rw [fakeNetlinkDatagramLen, hwalk, nextDatagram]
  by_cases hnone : rs.takeWhile goesOn = []
  · rw [if_pos hnone, hnone, pack_nil, if_pos (Or.inl List.length_nil)]
  · have hne : (messages.pack (rs.takeWhile goesOn)).length ≠ 0 := by
      rw [Ne, List.length_eq_zero_iff, pack_eq_nil_iff hfront]
      exact hnone
    rw [if_neg hnone, if_neg]
    rintro (hzero | hlt)
    · exact hne hzero
    · omega

namespace FakeNetlinkSocket

/-- A receiving call is offered the next datagram. -/
theorem Holds.pending_eq (h : sock.Holds rs) : sock.pending = messages.pack (nextDatagram rs) := by
  have hpack := pack_datagram rs
  rw [pending]
  by_cases hnone : sock.replyLen = 0
  · have hempty := (holds_nil hnone).rest_eq
    rw [h.rest_eq, pack_nil, pack_eq_nil_iff h.records] at hempty
    rw [if_pos hnone, hempty]
    rfl
  · rw [if_neg hnone]
    change sock.rest.take (fakeNetlinkDatagramLen sock.rest) = _
    rw [h.rest_eq, fakeNetlinkDatagramLen_pack h.records, hpack, List.take_left' rfl]

/-- What it takes is gone then. -/
theorem Holds.consume (h : sock.Holds rs) :
    (sock.consume (messages.pack (nextDatagram rs)).length).Holds (afterDatagram rs) := by
  have hafter : ∀ r ∈ afterDatagram rs, messages.IsRecord r :=
    fun r hr => h.records r (afterDatagram_subset rs hr)
  have hpack := pack_datagram rs
  have hlength := h.length_eq
  rw [h.rest_eq, hpack, List.length_append] at hlength
  rw [FakeNetlinkSocket.consume]
  split
  · next hend =>
    have hnone : afterDatagram rs = [] := by
      rw [← pack_eq_nil_iff hafter, ← List.length_eq_zero_iff]
      omega
    rw [hnone]
    exact holds_nil rfl
  · next hend =>
    have hrest : FakeNetlinkSocket.rest { sock with
        replyOff := sock.replyOff + (messages.pack (nextDatagram rs)).length } =
        messages.pack (afterDatagram rs) := by
      change ((sock.reply.getD []).take sock.replyLen).drop (_ + _) = _
      rw [← List.drop_drop]
      change sock.rest.drop _ = _
      rw [h.rest_eq, hpack, List.drop_left' rfl]
    refine ⟨hafter, hrest, ?_⟩
    rw [hrest]
    dsimp only
    omega

end FakeNetlinkSocket

/-! ### The queue -/

/-- A call on a socket, with what there is when it is made. -/
structure SocketStep where
  host : NetHost
  pid : UInt32
  access : Access
  memory : TraceeMemory
  call : SocketCall

variable {s : SocketStep}

/-- The memory after a call, and its result. -/
abbrev SocketResult : Type := TraceeMemory × Option ℕ

/-- One call on a socket. -/
def FakeNetlinkSocket.step (sock : FakeNetlinkSocket) (s : SocketStep) :
    FakeNetlinkSocket × SocketResult :=
  let answer := sock.call s.host s.pid s.access s.memory s.call
  (answer.socket, (answer.memory, answer.result))

/-- The datagrams that have not been received. -/
abbrev Queue : Type := List (List (List UInt8))

variable {q : Queue}

/-- The datagrams of the answer to a request. -/
def SocketStep.answer (s : SocketStep) (buf len : ℕ) : Queue :=
  datagrams (messages.unpack
    (buildFakeNetlinkReply s.host s.pid (readRequest s.access s.memory buf len)))

/-- The buffer of a request. -/
def SocketStep.request (s : SocketStep) : Option (ℕ × ℕ) :=
  match s.call with
  | .sendto buf len => some (buf, len)
  | .sendmsg msghdrAddr => msghdrFirstIovec s.memory msghdrAddr
  | .recvfrom .. | .recvmsg .. => none

/-- One call on a queue: a request puts the datagrams of its answer in place of those there are,
and a receiving call takes the first, if it does not only look at it. -/
def queueStep (q : Queue) (s : SocketStep) : Queue × SocketResult :=
  match s.call, q with
  | .sendto buf len, _ => (s.answer buf len, (s.memory, some len))
  | .sendmsg _, q =>
    match s.request with
    | none => (q, (s.memory, some 0))
    | some (base, len) => (s.answer base len, (s.memory, some len))
  | .recvfrom .., [] => ([], (s.memory, none))
  | .recvfrom buf len peek trunc addrPtr sizePtr, d :: ds =>
    let delivered :=
      deliverFrom s.access s.memory buf len trunc addrPtr sizePtr (messages.pack d)
    (if peek then d :: ds else ds, (delivered.1, some delivered.2))
  | .recvmsg .., [] => ([], (s.memory, none))
  | .recvmsg msghdrAddr peek trunc, d :: ds =>
    let delivered := deliverMsg s.access s.memory msghdrAddr trunc (messages.pack d)
    (if peek then d :: ds else ds, (delivered.1, some delivered.2))

/-- The queue has what the socket has. -/
def Represents (sock : FakeNetlinkSocket) (q : Queue) : Prop :=
  ∃ rs, sock.Holds rs ∧ q = datagrams rs

theorem Represents.consume {d : List (List UInt8)} {ds : Queue} (h : Represents sock (d :: ds)) :
    sock.pending = messages.pack d ∧ messages.pack d ≠ [] ∧
      Represents (sock.consume (messages.pack d).length) ds := by
  obtain ⟨rs, hholds, hq⟩ := h
  have hne : rs ≠ [] := by
    rintro rfl
    cases hq
  rw [datagrams_cons hne, List.cons.injEq] at hq
  have hrecords : ∀ r ∈ nextDatagram rs, messages.IsRecord r :=
    fun r hr => hholds.records r (nextDatagram_subset rs hr)
  rw [hq.1]
  refine ⟨hholds.pending_eq, ?_, afterDatagram rs, hholds.consume, hq.2⟩
  rw [Ne, pack_eq_nil_iff hrecords]
  exact nextDatagram_ne_nil hne

theorem Represents.pending_nil (h : Represents sock []) : sock.pending = [] := by
  obtain ⟨rs, hholds, hq⟩ := h
  have hnone : rs = [] := by
    by_contra hne
    rw [datagrams_cons hne] at hq
    cases hq
  rw [hholds.pending_eq, hnone]
  rfl

/-- An answer is some messages, also that to a request which cannot be read. -/
theorem buildFakeNetlinkReply_pack {host : NetHost} (hhost : host.Sound) (pid : UInt32)
    (req : Option Request) :
    messages.pack (messages.unpack (buildFakeNetlinkReply host pid req)) =
      buildFakeNetlinkReply host pid req := by
  cases req with
  | some req => exact (wellFormed_buildFakeNetlinkReply hhost req pid).whole
  | none =>
    have herror : buildFakeNetlinkReply host pid none = itemBytes 0 pid false [.error (-22)] := by
      rw [buildFakeNetlinkReply]
      exact nlBuildError_nil (-22)
    rw [herror, unpack_itemBytes _ _ _ fun item hitem => by
      rw [List.mem_singleton.1 hitem]
      exact trivial]
    rfl

theorem represents_answered (hhost : s.host.Sound) (sock : FakeNetlinkSocket) (buf len : ℕ) :
    Represents (sock.answered
      (buildFakeNetlinkReply s.host s.pid (readRequest s.access s.memory buf len)))
      (s.answer buf len) := by
  refine ⟨_, ?_, rfl⟩
  have hrecords : ∀ r ∈ messages.unpack
      (buildFakeNetlinkReply s.host s.pid (readRequest s.access s.memory buf len)),
      messages.IsRecord r := fun r => isRecord_of_mem_unpack
  have hholds := FakeNetlinkSocket.holds_answered hrecords sock
  rwa [buildFakeNetlinkReply_pack hhost] at hholds

/-- One call: the socket does what the queue does. -/
theorem represents_step (hhost : s.host.Sound) (h : Represents sock q) :
    Represents (sock.step s).1 (queueStep q s).1 ∧ (sock.step s).2 = (queueStep q s).2 := by
  obtain ⟨host, pid, access, memory, call⟩ := s
  rw [FakeNetlinkSocket.step]
  cases call with
  | sendto buf len => exact ⟨represents_answered hhost sock buf len, rfl⟩
  | sendmsg msghdrAddr =>
    dsimp only [FakeNetlinkSocket.call, queueStep, SocketStep.request]
    cases msghdrFirstIovec memory msghdrAddr with
    | none => exact ⟨h, rfl⟩
    | some iov => exact ⟨represents_answered hhost sock iov.1 iov.2, rfl⟩
  | recvfrom buf len peek trunc addrPtr sizePtr =>
    cases q with
    | nil =>
      rw [FakeNetlinkSocket.call, if_pos h.pending_nil]
      exact ⟨h, rfl⟩
    | cons d ds =>
      obtain ⟨hpending, hne, hrest⟩ := h.consume
      rw [FakeNetlinkSocket.call, hpending, if_neg hne]
      refine ⟨?_, rfl⟩
      cases peek with
      | true => exact h
      | false => exact hrest
  | recvmsg msghdrAddr peek trunc =>
    cases q with
    | nil =>
      rw [FakeNetlinkSocket.call, if_pos h.pending_nil]
      exact ⟨h, rfl⟩
    | cons d ds =>
      obtain ⟨hpending, hne, hrest⟩ := h.consume
      rw [FakeNetlinkSocket.call, hpending, if_neg hne]
      refine ⟨?_, rfl⟩
      cases peek with
      | true => exact h
      | false => exact hrest

/-- **The socket answers every run of calls as the queue does.** -/
theorem answers_eq_queue {sock : FakeNetlinkSocket} (hnew : sock.replyLen = 0)
    {steps : List SocketStep} (hhosts : ∀ s ∈ steps, s.host.Sound) :
    (Run.trace FakeNetlinkSocket.step sock steps).map Prod.snd =
      (Run.trace queueStep [] steps).map Prod.snd := by
  apply Run.answers_eq_of_related (R := Represents) (A := fun s => s.host.Sound)
  · exact fun sock q s hhost h => represents_step hhost h
  · exact ⟨[], FakeNetlinkSocket.holds_nil hnew, rfl⟩
  · exact hhosts

/-- A `struct msghdr` for 4120, with a name and two buffers, and its `struct iovec`s. -/
def exampleMsghdr : List UInt8 :=
  ([6000, 12, 4176, 2, 0, 0, 0, 4600, 8, 4700, 512].map (encode wordSize)).flatten

/-- The memory of a tracee with a request for all links on its second page. -/
def requestMemory : TraceeMemory where
  pageSize := 4096
  isMapped page := page == 1
  value x := (dumpLinks.bytes ++ [0, 0, 0, 0] ++ exampleMsghdr).getD (x - 4096) 0
  pageSize_pos := by decide

/-- A call on a phone. -/
def onPhone (call : SocketCall) : SocketStep := ⟨phone, 42, ⟨true, true⟩, requestMemory, call⟩

/-- A new substitute. -/
def newSubstitute : FakeNetlinkSocket := ⟨5, none, 0, 0⟩

/-- The calls that ask for the links and receive them. -/
def receivingCalls : List SocketStep :=
  [onPhone (.recvfrom 0 0 true true 0 0), onPhone (.recvfrom 4600 512 false false 6000 6016),
    onPhone (.recvmsg 4120 false false)]

theorem sound_onPhone {call : SocketCall} : (onPhone call).host.Sound := sound_phone

theorem sound_receivingCalls : ∀ s ∈ receivingCalls, s.host.Sound := by
  simp [receivingCalls, sound_onPhone]

theorem answers_eq_queue_phone :
    (Run.trace FakeNetlinkSocket.step newSubstitute
        (onPhone (.sendto 4096 20) :: receivingCalls)).map Prod.snd =
      (Run.trace queueStep [] (onPhone (.sendto 4096 20) :: receivingCalls)).map Prod.snd :=
  answers_eq_queue rfl (List.forall_mem_cons.2 ⟨sound_onPhone, sound_receivingCalls⟩)

/-! ### What is received -/

/-- A call receives. -/
def SocketCall.Receives : SocketCall → Prop
  | .sendto .. | .sendmsg _ => False
  | .recvfrom .. | .recvmsg .. => True

/-- A call receives, and not only to look. -/
def SocketCall.takes : SocketCall → Bool
  | .sendto .. | .sendmsg _ => false
  | .recvfrom _ _ peek _ _ _ | .recvmsg _ peek _ => !peek

/-- The datagrams that the calls of a run take. -/
def taken (sock : FakeNetlinkSocket) : List SocketStep → List (List UInt8)
  | [] => []
  | s :: steps =>
    let rest := taken (sock.step s).1 steps
    if s.call.takes ∧ sock.pending ≠ [] then sock.pending :: rest else rest

theorem queueStep_of_receives (h : s.call.Receives) :
    (queueStep q s).1 = if s.call.takes then q.tail else q := by
  obtain ⟨host, pid, access, memory, call⟩ := s
  cases call with
  | sendto buf len => exact absurd h id
  | sendmsg msghdrAddr => exact absurd h id
  | recvfrom buf len peek trunc addrPtr sizePtr => cases q <;> cases peek <;> rfl
  | recvmsg msghdrAddr peek trunc => cases q <;> cases peek <;> rfl

/-- The calls take the datagrams one after the other. -/
theorem taken_eq_take (h : Represents sock q) {steps : List SocketStep}
    (hhosts : ∀ s ∈ steps, s.host.Sound) (hreceives : ∀ s ∈ steps, s.call.Receives) :
    taken sock steps =
      (q.take (steps.countP fun s => s.call.takes)).map messages.pack := by
  induction steps generalizing sock q with
  | nil => simp [taken]
  | cons s steps ih =>
    have hnext := (represents_step (hhosts s List.mem_cons_self) h).1
    rw [queueStep_of_receives (hreceives s List.mem_cons_self)] at hnext
    have hrest := ih hnext (fun t ht => hhosts t (List.mem_cons_of_mem s ht))
      fun t ht => hreceives t (List.mem_cons_of_mem s ht)
    rw [taken, List.countP_cons]
    cases htakes : s.call.takes with
    | false =>
      rw [htakes, if_neg Bool.false_ne_true] at hrest
      rw [if_neg (by simp), hrest, if_neg Bool.false_ne_true, Nat.add_zero]
    | true =>
      rw [htakes, if_pos rfl] at hrest
      rw [if_pos rfl]
      cases q with
      | nil =>
        rw [if_neg fun hne => hne.2 h.pending_nil, hrest]
        simp
      | cons d ds =>
        obtain ⟨hpending, hne, -⟩ := h.consume
        rw [hpending, if_pos ⟨rfl, hne⟩, hrest, List.take_succ_cons, List.map_cons, List.tail_cons]

/-- A request is answered at once. -/
theorem FakeNetlinkSocket.step_of_request (sock : FakeNetlinkSocket) {buf len : ℕ}
    (h : s.request = some (buf, len)) :
    (sock.step s).1 = sock.answered
      (buildFakeNetlinkReply s.host s.pid (readRequest s.access s.memory buf len)) := by
  rw [SocketStep.request] at h
  cases hcall : s.call with
  | sendto buf' len' =>
    rw [hcall, Option.some.injEq, Prod.mk.injEq] at h
    rw [FakeNetlinkSocket.step, hcall, h.1, h.2]
    rfl
  | sendmsg msghdrAddr =>
    rw [hcall] at h
    dsimp only at h
    rw [FakeNetlinkSocket.step, hcall, FakeNetlinkSocket.call, h]
  | recvfrom buf len peek trunc addrPtr sizePtr =>
    rw [hcall] at h
    cases h
  | recvmsg msghdrAddr peek trunc =>
    rw [hcall] at h
    cases h

/-- **An answer is received in whole messages, each of them once and in their order, and the end
of a dump alone and last.** -/
theorem taken_eq {sock : FakeNetlinkSocket} {s : SocketStep} {buf len : ℕ} {req : Request}
    (hhost : s.host.Sound) (hrequest : s.request = some (buf, len))
    (hreq : readRequest s.access s.memory buf len = some req) {steps : List SocketStep}
    (hhosts : ∀ s ∈ steps, s.host.Sound) (hreceives : ∀ s ∈ steps, s.call.Receives) :
    ∃ front back,
      messages.unpack (buildFakeNetlinkReply s.host s.pid (some req)) = front ++ back ∧
      (∀ r ∈ front, (headerOf r).type ≠ nlmsgDone) ∧
      (if req.dump then ∃ last, back = [last] ∧ (headerOf last).type = nlmsgDone
        else back = []) ∧
      taken (sock.step s).1 steps =
        (([front, back].filter fun d => d ≠ []).take
          (steps.countP fun s => s.call.takes)).map messages.pack := by
  have hwell := wellFormed_buildFakeNetlinkReply hhost req s.pid
  have hanswered := represents_answered hhost sock buf len
  have hsocket := FakeNetlinkSocket.step_of_request sock hrequest
  have htaken := taken_eq_take hanswered hhosts hreceives
  rw [← hsocket, SocketStep.answer, hreq] at htaken
  refine ⟨_, _, List.takeWhile_append_dropWhile.symm, ?_, ?_, htaken⟩
  · intro r hr
    have hgoes := List.mem_takeWhile_imp hr
    simpa [goesOn] using hgoes
  · have hending := hwell.ending
    cases hdump : req.dump with
    | true =>
      rw [hdump, if_pos rfl] at hending
      obtain ⟨front, last, hunpack, hlast, hfront⟩ := hending
      refine ⟨last, ?_, hlast⟩
      have hskip : ∀ r ∈ front, goesOn r = true := fun r hr => by simpa [goesOn] using hfront r hr
      rw [hunpack, List.dropWhile_append_of_pos hskip, List.dropWhile_cons, if_neg]
      simpa [goesOn] using hlast
    | false =>
      rw [hdump, if_neg Bool.false_ne_true] at hending
      rw [if_neg Bool.false_ne_true, List.dropWhile_eq_nil_iff]
      exact fun r hr => by simpa [goesOn] using hending r hr

theorem readRequest_requestMemory :
    readRequest ⟨true, true⟩ requestMemory 4096 20 = some dumpLinks := rfl

theorem receives_receivingCalls : ∀ s ∈ receivingCalls, s.call.Receives := by
  simp [receivingCalls, onPhone, SocketCall.Receives]

theorem taken_phone :
    ∃ front back,
      messages.unpack (buildFakeNetlinkReply phone 42 (some dumpLinks)) = front ++ back ∧
      (∀ r ∈ front, (headerOf r).type ≠ nlmsgDone) ∧
      (if dumpLinks.dump then ∃ last, back = [last] ∧ (headerOf last).type = nlmsgDone
        else back = []) ∧
      taken (newSubstitute.step (onPhone (.sendto 4096 20))).1 receivingCalls =
        (([front, back].filter fun d => d ≠ []).take
          (receivingCalls.countP fun s => s.call.takes)).map messages.pack :=
  taken_eq sound_onPhone rfl readRequest_requestMemory sound_receivingCalls
    receives_receivingCalls

end NeoProot.Netlink
