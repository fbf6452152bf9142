import NeoProot.SysVIpc.Attachments

/-!
# A `shmat` gets the segment it asked for

The helper process accepts one connection for each request of the tracer and sends
the descriptor of the request to it, so connections and requests are paired by
their order alone.  `mapsAsked_of_sole` says that every tracee maps the segment
that it asked for, whatever the order of the stops, of the connections and of what
the helper does, as long as no `shmat` starts while another one is at its `socket`.

## Main definitions

* `Helper` — the listening socket, the pipe from the tracer, and what was sent.
* `HelperWorld` — the tracees, each with its dialogue with the helper.
* `MapsAsked` — every tracee maps what it asked for.
-/

namespace NeoProot.SysVIpc

open Run

variable {k : ℕ} {c : IpcTracee} {state : ChainState} {shms : List SysVIpcSharedMem}

/-! ### The helper -/

/-- The shared memory helper: connections that wait to be accepted, requests in the pipe, what
was sent on a connection, and the number of connections made. -/
structure Helper where
  backlog : List ℕ
  pipe : List ℤ
  sent : ℕ → Option ℤ
  made : ℕ

variable {h : Helper}

namespace Helper

def initial : Helper := ⟨[], [], fun _ => none, 0⟩

/-- The kernel queues a connection. -/
def connect (h : Helper) : Helper :=
  { h with backlog := h.backlog ++ [h.made], made := h.made + 1 }

/-- The tracer writes `SHMHELPER_DISTRIBUTE` to the pipe. -/
def request (h : Helper) (fd : ℤ) : Helper := { h with pipe := h.pipe ++ [fd] }

/-- One turn of `sysvipc_shm_helper_main` on a `SHMHELPER_DISTRIBUTE`; without a connection it
stays in `accept`, which can also fail. -/
def serve (h : Helper) (accepts : Bool) : Helper :=
  match h.pipe, h.backlog, accepts with
  | fd :: pipe, k :: backlog, true =>
    { h with pipe := pipe, backlog := backlog, sent := Function.update h.sent k (some fd) }
  | _ :: pipe, _, false => { h with pipe := pipe }
  | _ :: _, [], true | [], _, _ => h

/-- There is no request without a connection, and nothing was sent on one that waits. -/
structure Ok (h : Helper) : Prop where
  length_le : h.pipe.length ≤ h.backlog.length
  nodup : h.backlog.Nodup
  lt_made : ∀ k ∈ h.backlog, k < h.made
  unsent : ∀ k, k ∈ h.backlog ∨ h.made ≤ k → h.sent k = none

theorem ok_initial : initial.Ok := ⟨le_rfl, .nil, nofun, fun _ _ => rfl⟩

theorem Ok.connect (hok : h.Ok) : h.connect.Ok where
  length_le := by
    have := hok.length_le
    simp only [Helper.connect, List.length_append, List.length_singleton]
    omega
  nodup := by
    refine hok.nodup.append (List.nodup_singleton _) ?_
    rw [List.disjoint_singleton]
    exact fun hmem => (hok.lt_made _ hmem).false
  lt_made k hk := by
    simp only [Helper.connect, List.mem_append, List.mem_singleton] at hk ⊢
    rcases hk with hk | hk
    · have := hok.lt_made k hk
      omega
    · omega
  unsent k hk := by
    apply hok.unsent
    simp only [Helper.connect, List.mem_append, List.mem_singleton] at hk
    rcases hk with (hk | hk) | hk
    · exact .inl hk
    · exact .inr hk.ge
    · exact .inr (by omega)

/-- A request of a tracee whose connection waits. -/
theorem Ok.request (hok : h.Ok) (hlt : h.pipe.length < h.backlog.length) (fd : ℤ) :
    (h.request fd).Ok where
  length_le := by
    simp only [Helper.request, List.length_append, List.length_singleton]
    omega
  nodup := hok.nodup
  lt_made := hok.lt_made
  unsent := hok.unsent

/-- What one turn of the helper does. -/
theorem serve_cases (h : Helper) (accepts : Bool) :
    h.serve accepts = h ∨
      (∃ fd pipe, h.pipe = fd :: pipe ∧ h.serve accepts = { h with pipe := pipe }) ∨
      ∃ fd pipe k backlog, h.pipe = fd :: pipe ∧ h.backlog = k :: backlog ∧
        h.serve accepts =
          { h with
            pipe := pipe, backlog := backlog, sent := Function.update h.sent k (some fd) } := by
  unfold serve
  split
  · rename_i fd pipe k backlog hpipe hbacklog
    exact .inr (.inr ⟨fd, pipe, k, backlog, hpipe, hbacklog, rfl⟩)
  · rename_i fd pipe hpipe
    exact .inr (.inl ⟨fd, pipe, hpipe, rfl⟩)
  · exact .inl rfl
  · exact .inl rfl

theorem Ok.serve (hok : h.Ok) (accepts : Bool) : (h.serve accepts).Ok := by
  have hle := hok.length_le
  rcases h.serve_cases accepts with heq | ⟨fd, pipe, hpipe, heq⟩ |
      ⟨fd, pipe, k, backlog, hpipe, hbacklog, heq⟩
  · rw [heq]
    exact hok
  · rw [heq]
    rw [hpipe, List.length_cons] at hle
    exact ⟨by dsimp only; omega, hok.nodup, hok.lt_made, hok.unsent⟩
  · rw [heq]
    rw [hpipe, hbacklog, List.length_cons, List.length_cons] at hle
    have hnodup := hok.nodup
    rw [hbacklog, List.nodup_cons] at hnodup
    refine ⟨by dsimp only; omega, hnodup.2, ?_, ?_⟩
    · intro j hj
      exact hok.lt_made j (hbacklog ▸ List.mem_cons_of_mem k hj)
    · intro j hj
      have hk := hok.lt_made k (hbacklog ▸ List.mem_cons_self)
      have hne : j ≠ k := by
        rintro rfl
        rcases hj with hj | hj
        · exact hnodup.1 hj
        · dsimp only at hj
          omega
      dsimp only at hj ⊢
      rw [Function.update_of_ne hne]
      refine hok.unsent j (hj.imp_left fun hj => ?_)
      exact hbacklog ▸ List.mem_cons_of_mem k hj

/-- The connection is the last one, and no request was made for it. -/
def Ready (h : Helper) (k : ℕ) : Prop :=
  ∃ ks, h.backlog = ks ++ [k] ∧ h.pipe.length ≤ ks.length

/-- The connection was sent the descriptor, or it is the last one and the request for the
descriptor the last one. -/
def Aligned (h : Helper) (k : ℕ) (fd : ℤ) : Prop :=
  h.sent k = some fd ∨
    (h.sent k = none ∧ (∃ ks, h.backlog = ks ++ [k]) ∧
      (h.pipe = [] ∨ ∃ fds, h.pipe = fds ++ [fd]))

theorem Ok.ready_connect (hok : h.Ok) : h.connect.Ready h.made :=
  ⟨h.backlog, rfl, hok.length_le⟩

theorem Ready.lt (hr : h.Ready k) : h.pipe.length < h.backlog.length := by
  obtain ⟨ks, hks, hle⟩ := hr
  rw [hks, List.length_append, List.length_singleton]
  omega

theorem Ready.aligned (hok : h.Ok) (hr : h.Ready k) (fd : ℤ) : (h.request fd).Aligned k fd := by
  obtain ⟨ks, hks, -⟩ := hr
  refine .inr ⟨?_, ⟨ks, hks⟩, .inr ⟨h.pipe, rfl⟩⟩
  exact hok.unsent k (.inl (by rw [hks]; exact List.mem_append_right ks (List.mem_singleton_self k)))

theorem Ready.serve (hr : h.Ready k) (accepts : Bool) : (h.serve accepts).Ready k := by
  obtain ⟨ks, hks, hle⟩ := hr
  rcases h.serve_cases accepts with heq | ⟨fd, pipe, hpipe, heq⟩ |
      ⟨fd, pipe, j, backlog, hpipe, hbacklog, heq⟩
  · rw [heq]
    exact ⟨ks, hks, hle⟩
  · rw [heq]
    rw [hpipe, List.length_cons] at hle
    exact ⟨ks, hks, by dsimp only; omega⟩
  · rw [heq]
    rw [hpipe, List.length_cons] at hle
    cases ks with
    | nil => exact absurd hle (by simp)
    | cons j' ks' =>
      rw [hbacklog, List.cons_append, List.cons.injEq] at hks
      rw [List.length_cons] at hle
      exact ⟨ks', hks.2, by dsimp only; omega⟩

/-- What the helper does keeps a connection and its request together. -/
theorem Aligned.serve (hok : h.Ok) {fd : ℤ} (ha : h.Aligned k fd) (accepts : Bool) :
    (h.serve accepts).Aligned k fd := by
  rcases h.serve_cases accepts with heq | ⟨fd', pipe, hpipe, heq⟩ |
      ⟨fd', pipe, j, backlog, hpipe, hbacklog, heq⟩
  · rw [heq]
    exact ha
  · rw [heq]
    refine ha.imp_right fun hwait => ⟨hwait.1, hwait.2.1, ?_⟩
    obtain hnil | ⟨fds, hfds⟩ := hwait.2.2
    · rw [hnil] at hpipe
      cases hpipe
    · cases fds with
      | nil =>
        rw [hpipe, List.nil_append, List.cons.injEq] at hfds
        exact .inl hfds.2
      | cons f fds =>
        rw [hpipe, List.cons_append, List.cons.injEq] at hfds
        exact .inr ⟨fds, hfds.2⟩
  · rw [heq]
    have hj : h.sent j = none := hok.unsent j (.inl (hbacklog ▸ List.mem_cons_self))
    rcases ha with hsent | ⟨hnone, ⟨ks, hks⟩, hlast⟩
    · have hne : k ≠ j := by
        rintro rfl
        rw [hj] at hsent
        cases hsent
      exact .inl (by dsimp only; rw [Function.update_of_ne hne, hsent])
    · obtain hnil | ⟨fds, hfds⟩ := hlast
      · rw [hnil] at hpipe
        cases hpipe
      rw [hpipe] at hfds
      rw [hbacklog] at hks
      have hle := hok.length_le
      rw [hpipe, hbacklog] at hle
      cases ks with
      | nil =>
        -- the only connection: there is no other request than the last one
        rw [List.nil_append, List.cons.injEq] at hks
        rw [hks.2, List.length_cons, List.length_cons, List.length_nil] at hle
        have hempty : pipe = [] := List.eq_nil_of_length_eq_zero (by omega)
        rw [hempty] at hfds
        have hfd : fd' = fd := by
          cases fds with
          | nil => exact (List.cons.injEq .. ▸ hfds).1
          | cons f fds => simp at hfds
        refine .inl ?_
        dsimp only
        rw [hks.1, Function.update_self, hfd]
      | cons j' ks =>
        rw [List.cons_append, List.cons.injEq] at hks
        have hnodup := hok.nodup
        rw [hbacklog, List.nodup_cons, hks.2] at hnodup
        have hne : k ≠ j := by
          rintro rfl
          exact hnodup.1 (List.mem_append_right ks (List.mem_singleton_self k))
        refine .inr ⟨?_, ⟨ks, hks.2⟩, ?_⟩
        · dsimp only
          rw [Function.update_of_ne hne, hnone]
        · cases fds with
          | nil =>
            rw [List.nil_append, List.cons.injEq] at hfds
            exact .inl hfds.2
          | cons f fds =>
            rw [List.cons_append, List.cons.injEq] at hfds
            exact .inr ⟨fds, hfds.2⟩

end Helper

/-! ### Tracees and helper -/

/-- What a `shmat` asked for, its connection to the helper, and the descriptor that it
received. -/
structure Dialogue where
  asked : Option ℤ
  connection : Option ℕ
  received : Option ℤ
  deriving DecidableEq, Repr

variable {d : Dialogue}

/-- The descriptor of a segment in the helper. -/
def segmentFd (shms : List SysVIpcSharedMem) (idx : ℕ) : ℤ :=
  (shms[idx]?.map (·.content.fd)).getD (-1)

/-- The segments and tracees of a namespace, and the helper. -/
structure HelperWorld where
  shms : List SysVIpcSharedMem
  tracees : List IpcTracee
  helper : Helper
  dialogue : ℕ → Dialogue

/-- A `shmat`, the stops of its tracee, a `connect` that reaches the kernel's queue, a turn of
the helper, and the lives of tracees.  The other calls change the segments in any way that keeps
those on which a `shmat` is under way: they have its mapping. -/
inductive HelperEvent
  | shmat (pid : ℕ) (fromSigsys : Bool) (shmid : BitVec 32) (allocates : Bool)
  | enter (pid : ℕ)
  | connect (pid : ℕ)
  | leave (pid : ℕ) (s : ShmatStop)
  | serve (accepts : Bool)
  | clone (parent child : ℕ) (thread : Bool)
  | exit (pid : ℕ)
  | others (shms : List SysVIpcSharedMem)

namespace HelperWorld

/-- The tracee that makes a call. -/
def caller (w : HelperWorld) (pid : ℕ) : Option IpcTracee :=
  ShmWorld.caller ⟨w.shms, [], w.tracees, false⟩ pid

/-- The test that makes a `shmat` wait for the helper. -/
def busy (w : HelperWorld) : Bool := ∃ d ∈ w.tracees, PastSocket d

/-- `sysvipc_shmat`, without the mapping that it records. -/
def shmat (w : HelperWorld) (c : IpcTracee) (fromSigsys : Bool) (shmid : BitVec 32)
    (allocates : Bool) : HelperWorld :=
  match lookupIpcObject w.shms shmid with
  | none =>
    { w with tracees := updateTracee c.pid (syscallTail fromSigsys (-EINVAL)) w.tracees }
  | some idx =>
    if ¬ allocates then
      { w with tracees := updateTracee c.pid (syscallTail fromSigsys (-ENOMEM)) w.tracees }
    else
      { w with
        tracees := updateTracee c.pid
          (fun d => syscallTail fromSigsys 0 (shmatOwn idx w.busy d)) w.tracees
        dialogue := Function.update w.dialogue c.pid ⟨some (segmentFd w.shms idx), none, none⟩ }

/-- What was sent on the connection of the tracee. -/
def answer (w : HelperWorld) (c : IpcTracee) : Option ℤ :=
  (w.dialogue c.pid).connection.bind w.helper.sent

/-- The kernel ends no `connect` well that it did not queue, and no `recvmsg` with a descriptor
that was not sent. -/
def Premature (w : HelperWorld) (c : IpcTracee) (s : ShmatStop) : Prop :=
  (c.chainState = .shmatConnect ∧ asInt s.result = 0 ∧ (w.dialogue c.pid).connection = none) ∨
    (c.chainState = .shmatRecvmsg ∧ s.cmsgFd ≠ none ∧ w.answer c = none)

instance (w : HelperWorld) (c : IpcTracee) (s : ShmatStop) : Decidable (w.Premature c s) :=
  inferInstanceAs (Decidable ((_ ∧ _ ∧ _) ∨ (_ ∧ _ ∧ _)))

/-- `sysvipc_shmat_chain`, without the mapping that it records. -/
def shmatChain (w : HelperWorld) (c : IpcTracee) (s : ShmatStop) : HelperWorld :=
  if w.Premature c s then w
  else match shmatStage c s with
    | .next c' =>
      { w with
        tracees := updateTracee c.pid (fun _ => c') w.tracees
        helper :=
          if c.chainState = .shmatConnect then
            w.helper.request (segmentFd w.shms c.waitingObjectIndex)
          else w.helper
        dialogue :=
          if c.chainState = .shmatRecvmsg then
            Function.update w.dialogue c.pid
              { w.dialogue c.pid with received := w.answer c }
          else w.dialogue }
    | .attached | .failed => { w with tracees := ShmWorld.leaveChain c.pid w.tracees }

/-- One event. -/
def step (w : HelperWorld) : HelperEvent → HelperWorld
  | .shmat pid fromSigsys shmid allocates =>
    match w.caller pid with
    | none => w
    | some c => w.shmat c fromSigsys shmid allocates
  | .enter pid => { w with tracees := updateTracee pid ShmWorld.enterStop w.tracees }
  | .connect pid =>
    match w.tracees.find? (·.pid = pid) with
    | none => w
    | some c =>
      if c.chainState = .shmatConnect ∧ (w.dialogue c.pid).connection = none then
        { w with
          helper := w.helper.connect
          dialogue := Function.update w.dialogue c.pid
            { w.dialogue c.pid with connection := some w.helper.made } }
      else w
  | .leave pid s =>
    match w.tracees.find? (·.pid = pid) with
    | none => w
    | some c =>
      if c.waitState = .notWaiting then
        if InChain c then w.shmatChain c s else w
      else { w with tracees := updateTracee pid exitStart w.tracees }
  | .serve accepts => { w with helper := w.helper.serve accepts }
  | .clone parent child thread =>
    { w with tracees := cloneTracee parent child thread w.tracees }
  | .exit pid => { w with tracees := dropTracee pid w.tracees }
  | .others shms =>
    if ∀ c ∈ w.tracees, Underway c →
        segmentFd shms c.waitingObjectIndex = segmentFd w.shms c.waitingObjectIndex then
      { w with shms := shms }
    else w

/-- A namespace at its start. -/
def initial (pid : ℕ) : HelperWorld :=
  ⟨[], [IpcTracee.fresh pid pid], .initial, fun _ => ⟨none, none, none⟩⟩

end HelperWorld

/-- Every tracee that maps a segment received the descriptor of the one it asked for. -/
def MapsAsked (w : HelperWorld) : Prop :=
  ∀ c ∈ w.tracees, c.chainState = .shmatMmap →
    (w.dialogue c.pid).received = (w.dialogue c.pid).asked

instance (w : HelperWorld) : Decidable (MapsAsked w) :=
  inferInstanceAs (Decidable (∀ c ∈ w.tracees, c.chainState = .shmatMmap →
    (w.dialogue c.pid).received = (w.dialogue c.pid).asked))

/-- The condition on an event: no `shmat` that does not wait starts while another tracee is at
its `socket`, which the test for a busy helper leaves out. -/
def StartsAlone (w : HelperWorld) : HelperEvent → Prop
  | .shmat pid _ shmid allocates =>
    w.caller pid ≠ none → lookupIpcObject w.shms shmid ≠ none → allocates = true →
      w.busy = false → ∀ d ∈ w.tracees, d.chainState ≠ .shmatSocket
  | _ => True

instance (w : HelperWorld) (e : HelperEvent) : Decidable (StartsAlone w e) := by
  rcases e with _ | _ | _ | _ | _ | _ | _ | _ <;> dsimp only [StartsAlone] <;> infer_instance

/-! ### The invariant -/

/-- What holds of the helper and the dialogue of a tracee at a stage of its chain. -/
def AtStage (h : Helper) (d : Dialogue) : ChainState → Prop
  | .shmatSocket => d.connection = none
  | .shmatConnect => ∀ k, d.connection = some k → h.Ready k
  | .shmatRecvmsg => ∃ k fd, d.connection = some k ∧ d.asked = some fd ∧ h.Aligned k fd
  | .shmatMmap => d.received = d.asked
  | _ => True

/-- What holds of one tracee. -/
structure TraceeOk (shms : List SysVIpcSharedMem) (h : Helper) (d : Dialogue) (c : IpcTracee) :
    Prop where
  phase : ShmPhase c
  asked : Underway c → d.asked = some (segmentFd shms c.waitingObjectIndex)
  waiting : c.waitReason = .waitShmatHelperBusy → d.connection = none
  stage : AtStage h d c.chainState

/-- At most one tracee is in its chain, and its dialogue with the helper is in order. -/
structure HelperWorld.Inv (w : HelperWorld) : Prop where
  nodup : (w.tracees.map (·.pid)).Nodup
  sole : w.tracees.countP (InChain ·) ≤ 1
  helper : w.helper.Ok
  each : ∀ c ∈ w.tracees, TraceeOk w.shms w.helper (w.dialogue c.pid) c

theorem HelperWorld.Inv.mapsAsked {w : HelperWorld} (h : w.Inv) : MapsAsked w := by
  intro c hc hstate
  have hstage := (h.each c hc).stage
  rw [hstate] at hstage
  exact hstage

/-- Two members of a list that has at most one with a property are equal. -/
theorem eq_of_countP_le_one {tracees : List IpcTracee} {q : IpcTracee → Bool}
    (h : tracees.countP q ≤ 1) {d : IpcTracee} (hc : c ∈ tracees) (hd : d ∈ tracees)
    (hqc : q c = true) (hqd : q d = true) : c = d := by
  have hmem {x : IpcTracee} (hx : x ∈ tracees) (hq : q x = true) : x ∈ tracees.filter q :=
    List.mem_filter.2 ⟨hx, hq⟩
  rw [List.countP_eq_length_filter] at h
  have hc' := hmem hc hqc
  have hd' := hmem hd hqd
  match hf : tracees.filter q with
  | [] =>
    rw [hf] at hc'
    cases hc'
  | [x] =>
    rw [hf, List.mem_singleton] at hc' hd'
    exact hc'.trans hd'.symm
  | x :: y :: xs =>
    rw [hf] at h
    simp at h

/-- The stages that do not depend on the helper. -/
theorem AtStage.of_not_dialing {h' : Helper} (hs : AtStage h d state)
    (hconnect : state ≠ .shmatConnect) (hrecvmsg : state ≠ .shmatRecvmsg) : AtStage h' d state := by
  cases state <;> first | exact hs | exact absurd rfl hconnect | exact absurd rfl hrecvmsg

/-- A turn of the helper leaves every tracee at its stage. -/
theorem AtStage.serve (hok : h.Ok) (hs : AtStage h d state) (accepts : Bool) :
    AtStage (h.serve accepts) d state := by
  by_cases hconnect : state = .shmatConnect
  · rw [hconnect] at hs ⊢
    exact fun k hk => (hs k hk).serve accepts
  · by_cases hrecvmsg : state = .shmatRecvmsg
    · rw [hrecvmsg] at hs ⊢
      obtain ⟨k, fd, hk, hfd, ha⟩ := hs
      exact ⟨k, fd, hk, hfd, ha.serve hok accepts⟩
    · exact hs.of_not_dialing hconnect hrecvmsg

theorem atStage_notChained (hs : state = .notChained) : AtStage h d state := by
  rw [hs]
  exact trivial

theorem TraceeOk.idle (hr : c.waitReason = .notWaiting) (hc : c.chainState = .notChained) :
    TraceeOk shms h d c where
  phase := .idle hr hc
  asked hunder := absurd hunder (not_underway hr hc)
  waiting hw := by
    rw [hr] at hw
    cases hw
  stage := atStage_notChained hc

/-- A tracee whose own dialogue does not change, and which is not dialing. -/
theorem TraceeOk.of_not_dialing {h' : Helper} (hc : TraceeOk shms h d c) (hnot : ¬ InChain c) :
    TraceeOk shms h' d c where
  phase := hc.phase
  asked := hc.asked
  waiting := hc.waiting
  stage := hc.stage.of_not_dialing (fun hs => hnot (.inr (.inl hs)))
    fun hs => hnot (.inr (.inr (.inl hs)))

section

variable {w : HelperWorld} {pid : ℕ} {c : IpcTracee}

/-- One tracee changes, and the chains stay where they are or get one less. -/
theorem HelperWorld.Inv.of_update (h : w.Inv) {f : IpcTracee → IpcTracee}
    (hpid : ∀ c, (f c).pid = c.pid)
    (heach : ∀ c ∈ w.tracees, c.pid = pid → TraceeOk w.shms w.helper (w.dialogue c.pid) (f c))
    (hchain : ∀ c ∈ w.tracees, c.pid = pid → InChain (f c) → InChain c) :
    HelperWorld.Inv { w with tracees := updateTracee pid f w.tracees } where
  nodup := (map_pid_updateTracee hpid).symm ▸ h.nodup
  sole := by
    refine le_trans ?_ h.sole
    rw [updateTracee, List.countP_map]
    refine List.countP_mono_left fun c hc hin => ?_
    simp only [Function.comp, decide_eq_true_eq] at hin ⊢
    split at hin
    · rename_i hpid
      exact hchain c hc hpid hin
    · exact hin
  helper := h.helper
  each := by
    refine forall_mem_updateTracee.2 fun c hc => ?_
    split
    · rename_i hcpid
      rw [hpid]
      exact heach c hc hcpid
    · exact h.each c hc

/-- One tracee changes with its dialogue and the helper. -/
theorem HelperWorld.Inv.of_dialogue (h : w.Inv) (hc : c ∈ w.tracees) {c' : IpcTracee}
    (hpid : c'.pid = c.pid) {helper : Helper} (hhelper : helper.Ok)
    (hown : TraceeOk w.shms helper d c')
    (hothers : ∀ x ∈ w.tracees, x.pid ≠ c.pid → TraceeOk w.shms helper (w.dialogue x.pid) x)
    (halone : InChain c' → ∀ x ∈ w.tracees, x.pid ≠ c.pid → ¬ InChain x) :
    HelperWorld.Inv
      { w with
        tracees := updateTracee c.pid (fun _ => c') w.tracees
        helper := helper
        dialogue := Function.update w.dialogue c.pid d } where
  nodup := (map_pid_updateTracee_of fun _ _ _ => hpid).symm ▸ h.nodup
  sole := by
    have hcount := countP_updateTracee h.nodup hc (fun _ => c') (fun x => decide (InChain x))
    have hsole := h.sole
    dsimp only at hcount ⊢
    by_cases hin' : InChain c'
    · rw [decide_eq_true hin', Bool.toNat_true] at hcount
      by_cases hin : InChain c
      · rw [decide_eq_true hin, Bool.toNat_true] at hcount
        omega
      · have hzero : w.tracees.countP (fun x => decide (InChain x)) = 0 := by
          rw [List.countP_eq_zero]
          intro x hx
          rw [decide_eq_true_eq]
          by_cases hxpid : x.pid = c.pid
          · rw [eq_of_pid h.nodup hx hc hxpid]
            exact hin
          · exact halone hin' x hx hxpid
        omega
    · rw [decide_eq_false hin', Bool.toNat_false] at hcount
      omega
  helper := hhelper
  each := by
    refine forall_mem_updateTracee.2 fun x hx => ?_
    dsimp only
    split
    · rw [hpid, Function.update_self]
      exact hown
    · rename_i hxpid
      rw [Function.update_of_ne hxpid]
      exact hothers x hx hxpid

/-- The other tracees are not in their chains while one is. -/
theorem HelperWorld.Inv.others_not_inChain (h : w.Inv) (hc : c ∈ w.tracees) (hin : InChain c)
    (x : IpcTracee) (hx : x ∈ w.tracees) (hne : x.pid ≠ c.pid) : ¬ InChain x := by
  intro hxin
  apply hne
  rw [eq_of_countP_le_one h.sole hx hc (by simpa using hxin) (by simpa using hin)]

theorem inv_answer (h : w.Inv) (hcaller : w.caller pid = some c) (fromSigsys : Bool) (status : ℤ) :
    HelperWorld.Inv
      { w with tracees := updateTracee c.pid (syscallTail fromSigsys status) w.tracees } := by
  obtain ⟨hc, -, hs, hchain⟩ := caller_eq_some hcaller
  have hidle (d : IpcTracee) (hd : d ∈ w.tracees) (hpid : d.pid = c.pid) :
      (syscallTail fromSigsys status d).waitReason = .notWaiting ∧
        (syscallTail fromSigsys status d).chainState = .notChained := by
    rw [eq_of_pid h.nodup hd hc hpid, syscallTail_waitReason]
    refine ⟨(h.each c hc).phase.idle_of_caller hs, ?_⟩
    rw [syscallTail, if_neg (not_not.2 hchain)]
    split_ifs <;> exact hchain
  refine h.of_update (syscallTail_pid _ _) ?_ ?_
  · intro d hd hpid
    obtain ⟨hr, hn⟩ := hidle d hd hpid
    exact .idle hr hn
  · intro d hd hpid hin
    exact absurd hin (not_inChain_of_notChained (hidle d hd hpid).2)

/-- A `shmat` that starts alone, waits, or fails. -/
theorem inv_shmat_call (h : w.Inv) (hcaller : w.caller pid = some c) (fromSigsys : Bool)
    (shmid : BitVec 32) (allocates : Bool)
    (hcond : StartsAlone w (.shmat pid fromSigsys shmid allocates)) :
    (w.shmat c fromSigsys shmid allocates).Inv := by
  unfold HelperWorld.shmat
  cases hl : lookupIpcObject w.shms shmid with
  | none => exact inv_answer h hcaller fromSigsys _
  | some idx =>
    dsimp only
    by_cases hal : allocates = true
    swap
    · rw [if_pos hal]
      exact inv_answer h hcaller fromSigsys _
    rw [if_neg (not_not.2 hal)]
    obtain ⟨hc, hpid, hs, hchain⟩ := caller_eq_some hcaller
    have hreason := (h.each c hc).phase.idle_of_caller hs
    have halone : w.busy = false → ∀ x ∈ w.tracees, ¬ InChain x := by
      intro hbusy x hx hin
      have hsocket := hcond (by rw [hcaller]; nofun) (by rw [hl]; nofun) hal hbusy x hx
      rw [HelperWorld.busy, decide_eq_false_iff_not] at hbusy
      rcases hin with hin | hin
      · exact hsocket hin
      · exact hbusy ⟨x, hx, hin⟩
    have heq : updateTracee c.pid
        (fun d => syscallTail fromSigsys 0 (shmatOwn idx w.busy d)) w.tracees =
        updateTracee c.pid
          (fun _ => syscallTail fromSigsys 0 (shmatOwn idx w.busy c)) w.tracees := by
      refine List.map_congr_left fun d hd => ?_
      split
      · rename_i hdpid
        rw [eq_of_pid h.nodup hd hc hdpid]
      · rfl
    rw [heq]
    have hpids : (syscallTail fromSigsys 0 (shmatOwn idx w.busy c)).pid = c.pid := by
      rw [syscallTail_pid, shmatOwn]
      split <;> rfl
    refine h.of_dialogue hc hpids h.helper ?_ (fun x hx _ => h.each x hx) ?_
    · cases hbusy : w.busy with
      | true =>
        have hchain' : (syscallTail fromSigsys 0 (shmatOwn idx true c)).chainState =
            .notChained := by
          simp [syscallTail, shmatOwn, hchain]
        refine ⟨.waiting (by rw [syscallTail_waitReason]; rfl) hchain' ?_, fun _ => ?_,
          fun _ => rfl, atStage_notChained hchain'⟩
        · cases fromSigsys <;> simp [syscallTail, shmatOwn, hchain]
        · rw [syscallTail_waitingObjectIndex]
          rfl
      | false =>
        have hchain' : (syscallTail fromSigsys 0 (shmatOwn idx false c)).chainState =
            .shmatSocket := by
          simp [syscallTail, shmatOwn]
        refine ⟨.chained (by rw [syscallTail_waitReason]; exact hreason) (.inl hchain'),
          fun _ => ?_, fun _ => rfl, ?_⟩
        · rw [syscallTail_waitingObjectIndex]
          rfl
        · rw [hchain']
          rfl
    · intro hin x hx _
      refine halone ?_ x hx
      by_contra hbusy
      rw [Bool.not_eq_false] at hbusy
      rw [hbusy] at hin
      exact not_inChain_of_notChained (by simp [syscallTail, shmatOwn, hchain]) hin

theorem traceeOk_enterStop (hc : TraceeOk shms h d c) :
    TraceeOk shms h d (ShmWorld.enterStop c) := by
  have hphase := shmPhase_enterStop hc.phase
  unfold ShmWorld.enterStop at hphase ⊢
  split
  · rename_i hs
    rw [hs] at hphase
    exact ⟨hphase, hc.asked, hc.waiting, hc.stage⟩
  · rename_i hs
    rw [hs] at hphase
    exact ⟨hphase, hc.asked, hc.waiting, hc.stage⟩
  · exact hc

theorem inChain_enterStop (c : IpcTracee) : InChain (ShmWorld.enterStop c) ↔ InChain c := by
  unfold ShmWorld.enterStop
  split <;> exact Iff.rfl

/-- The end of a wait, also of one that a signal interrupts. -/
theorem traceeOk_exitStart (hc : TraceeOk shms h d c) : TraceeOk shms h d (exitStart c) := by
  unfold exitStart
  split
  case h_1 =>
    refine ⟨?_, ?_, nofun, hc.stage⟩
    · cases hc.phase with
      | idle _ hn => exact .idle rfl hn
      | waiting _ hn => exact .idle rfl hn
      | chained _ hin => exact .chained rfl hin
    · rintro (hin | hw)
      · exact hc.asked (.inl hin)
      · cases hw
  case h_4 => exact hc
  all_goals
    rename_i hs
    refine ⟨?_, hc.asked, hc.waiting, hc.stage⟩
    cases hc.phase with
    | idle hr hn => exact .idle hr hn
    | waiting _ _ hin => rcases hin with hin | hin <;> rw [hs] at hin <;> cases hin
    | chained hr hin => exact .chained hr hin

theorem inChain_exitStart (c : IpcTracee) : InChain (exitStart c) ↔ InChain c := by
  unfold exitStart
  split <;> exact Iff.rfl

theorem countP_inChain_wakePendingShmat (tracees : List IpcTracee) :
    (wakePendingShmat tracees).countP (InChain ·) ≤ tracees.countP (InChain ·) + 1 := by
  induction tracees with
  | nil => exact Nat.zero_le _
  | cons c cs ih =>
    rw [wakePendingShmat]
    split
    · rw [List.countP_cons, List.countP_cons]
      split <;> split <;> omega
    · rw [List.countP_cons, List.countP_cons]
      omega

/-- The end of a chain, which wakes one tracee that waits for the helper. -/
theorem inv_leaveChain (h : w.Inv) (hc : c ∈ w.tracees) (hin : InChain c) :
    HelperWorld.Inv { w with tracees := ShmWorld.leaveChain c.pid w.tracees } := by
  have hreason : c.waitReason = .notWaiting := by
    cases (h.each c hc).phase with
    | idle hr => exact hr
    | waiting _ hn => exact absurd hin (not_inChain_of_notChained hn)
    | chained hr => exact hr
  have hleft : HelperWorld.Inv
      { w with
        tracees := updateTracee c.pid (fun c => { c with chainState := .notChained })
          w.tracees } := by
    refine h.of_update (fun _ => rfl) ?_ ?_
    · intro d hd hpid
      rw [eq_of_pid h.nodup hd hc hpid]
      exact .idle hreason rfl
    · exact fun d _ _ hd => absurd hd (not_inChain_of_notChained rfl)
  have hnone : (updateTracee c.pid (fun c => { c with chainState := .notChained })
      w.tracees).countP (InChain ·) = 0 := by
    rw [List.countP_eq_zero]
    refine forall_mem_updateTracee.2 fun d hd => ?_
    split
    · rw [decide_eq_true_eq]
      exact not_inChain_of_notChained rfl
    · rename_i hpid
      rw [decide_eq_true_eq]
      exact h.others_not_inChain hc hin d hd hpid
  refine ⟨?_, ?_, h.helper, ?_⟩
  · exact (map_pid_leaveChain c.pid w.tracees).symm ▸ h.nodup
  · have hle := countP_inChain_wakePendingShmat
      (updateTracee c.pid (fun c => { c with chainState := .notChained }) w.tracees)
    rw [hnone] at hle
    exact hle
  · intro d hd
    rcases mem_wakePendingShmat hd with hd | ⟨d', hd', hw, rfl⟩
    · exact hleft.each d hd
    · have hwaiting := hleft.each d' hd'
      exact ⟨.chained rfl (.inl rfl), fun _ => hwaiting.asked (.inr hw), nofun,
        hwaiting.waiting hw⟩

/-- The stage that follows in the chain. -/
theorem shmatStage_next_state {c c' : IpcTracee} {s : ShmatStop} (hc : InChain c)
    (h : shmatStage c s = .next c') :
    (c.chainState = .shmatSocket ∧ c'.chainState = .shmatConnect) ∨
      (c.chainState = .shmatConnect ∧ c'.chainState = .shmatRecvmsg ∧ asInt s.result = 0) ∨
      (c.chainState = .shmatRecvmsg ∧ c'.chainState = .shmatMmap ∧ s.cmsgFd ≠ none) := by
  rcases hc with hc | hc | hc | hc
  · simp only [shmatStage, hc] at h
    split at h
    · cases h
    · cases h
      exact .inl ⟨hc, rfl⟩
  · simp only [shmatStage, hc] at h
    split at h
    · cases h
    · rename_i hok
      cases h
      rw [not_or, not_not] at hok
      exact .inr (.inl ⟨hc, rfl, hok.1⟩)
  · simp only [shmatStage, hc] at h
    split at h
    · cases h
    · split at h
      · cases h
      · rename_i fd hfd
        split at h
        · cases h
        · cases h
          exact .inr (.inr ⟨hc, rfl, by simp [hfd]⟩)
  · simp only [shmatStage, hc] at h
    split at h <;> cases h

/-- A stage of the chain. -/
theorem inv_shmatChain (h : w.Inv) (hc : c ∈ w.tracees) (hin : InChain c) (s : ShmatStop) :
    (w.shmatChain c s).Inv := by
  unfold HelperWorld.shmatChain
  by_cases hpre : w.Premature c s
  · rw [if_pos hpre]
    exact h
  rw [if_neg hpre]
  cases hstage : shmatStage c s with
  | attached => exact inv_leaveChain h hc hin
  | failed => exact inv_leaveChain h hc hin
  | next c' =>
    obtain ⟨hpid, -, hidx, hr, -, hin'⟩ := shmatStage_next hin hstage
    have hown := h.each c hc
    have hothers := h.others_not_inChain hc hin
    have hquiet (helper : Helper) (x : IpcTracee) (hx : x ∈ w.tracees) (hne : x.pid ≠ c.pid) :
        TraceeOk w.shms helper (w.dialogue x.pid) x :=
      (h.each x hx).of_not_dialing (hothers x hx hne)
    have hreason : c'.waitReason = .notWaiting := by
      rw [hr]
      cases hown.phase with
      | idle hr => exact hr
      | waiting _ hn => exact absurd hin (not_inChain_of_notChained hn)
      | chained hr => exact hr
    have hok {helper : Helper} {d : Dialogue} (hasked : d.asked = (w.dialogue c.pid).asked)
        (hst : AtStage helper d c'.chainState) : TraceeOk w.shms helper d c' := by
      refine ⟨.chained hreason hin', fun _ => ?_, fun hw => ?_, hst⟩
      · rw [hasked, hidx]
        exact hown.asked (.inl hin)
      · rw [hreason] at hw
        cases hw
    have hst := hown.stage
    dsimp only
    rcases shmatStage_next_state hin hstage with ⟨hstate, hstate'⟩ |
        ⟨hstate, hstate', hzero⟩ | ⟨hstate, hstate', hfd⟩
    · rw [hstate] at hst
      have hnext := h.of_dialogue hc hpid h.helper (d := w.dialogue c.pid)
        (hok rfl (by rw [hstate']; intro k hk; rw [hst] at hk; cases hk)) (hquiet w.helper)
        fun _ => hothers
      rw [Function.update_eq_self] at hnext
      simpa [hstate] using hnext
    · rw [hstate] at hst
      obtain ⟨k, hk⟩ : ∃ k, (w.dialogue c.pid).connection = some k := by
        rw [← Option.ne_none_iff_exists']
        exact fun hnone => hpre (.inl ⟨hstate, hzero, hnone⟩)
      have hready := hst k hk
      have hstage' : AtStage (w.helper.request (segmentFd w.shms c.waitingObjectIndex))
          (w.dialogue c.pid) c'.chainState := by
        rw [hstate']
        exact ⟨k, _, hk, hown.asked (.inl hin), hready.aligned h.helper _⟩
      have hnext := h.of_dialogue hc hpid
        (h.helper.request hready.lt (segmentFd w.shms c.waitingObjectIndex))
        (d := w.dialogue c.pid) (hok rfl hstage') (hquiet _) fun _ => hothers
      rw [Function.update_eq_self] at hnext
      simpa [hstate] using hnext
    · rw [hstate] at hst
      obtain ⟨k, fd, hk, hasked, haligned⟩ := hst
      have hanswer : w.answer c = w.helper.sent k := by
        rw [HelperWorld.answer, hk]
        rfl
      have hsent : w.helper.sent k = some fd := by
        refine haligned.resolve_right fun hwait => hpre (.inr ⟨hstate, hfd, ?_⟩)
        rw [hanswer]
        exact hwait.1
      have hstage' : AtStage w.helper { w.dialogue c.pid with received := w.answer c }
          c'.chainState := by
        rw [hstate', hanswer, hsent]
        exact hasked.symm
      have hnext := h.of_dialogue hc hpid h.helper
        (d := { w.dialogue c.pid with received := w.answer c }) (hok rfl hstage')
        (hquiet w.helper) fun _ => hothers
      simpa [hstate] using hnext

theorem inv_connect (h : w.Inv) (pid : ℕ) : (w.step (.connect pid)).Inv := by
  simp only [HelperWorld.step]
  split
  · exact h
  · rename_i c hf
    obtain ⟨hc, -⟩ := find_pid_eq_some hf
    split
    · rename_i hdial
      have hin : InChain c := .inr (.inl hdial.1)
      have hown := h.each c hc
      have hothers := h.others_not_inChain hc hin
      have hstage : AtStage w.helper.connect
          { w.dialogue c.pid with connection := some w.helper.made } c.chainState := by
        rw [hdial.1]
        intro k hk
        cases hk
        exact h.helper.ready_connect
      have hreason : c.waitReason = .notWaiting := by
        cases hown.phase with
        | idle hr => exact hr
        | waiting _ hn => exact absurd hin (not_inChain_of_notChained hn)
        | chained hr => exact hr
      have hnext := h.of_dialogue hc rfl h.helper.connect
        (d := { w.dialogue c.pid with connection := some w.helper.made })
        ⟨hown.phase, hown.asked, fun hw => (by rw [hreason] at hw; cases hw), hstage⟩
        (fun x hx hne => (h.each x hx).of_not_dialing (hothers x hx hne)) fun _ => hothers
      have hsame : updateTracee c.pid (fun _ => c) w.tracees = w.tracees := by
        refine (List.map_congr_left fun d hd => ?_).trans (List.map_id _)
        split
        · rename_i hpid
          exact (eq_of_pid h.nodup hd hc hpid).symm
        · rfl
      rw [hsame] at hnext
      exact hnext
    · exact h

theorem inv_clone_tracee (h : w.Inv) (parent child : ℕ) (thread : Bool) :
    (w.step (.clone parent child thread)).Inv := by
  have hfresh (process : ℕ) : ¬ InChain (IpcTracee.fresh child process) :=
    not_inChain_of_notChained rfl
  refine ⟨nodup_cloneTracee h.nodup, ?_, h.helper, ?_⟩
  · dsimp only [HelperWorld.step]
    unfold cloneTracee
    split
    · split
      · exact h.sole
      · rw [List.countP_cons_of_neg (by simpa using hfresh _)]
        exact h.sole
    · exact h.sole
  · intro d hd
    rcases mem_cloneTracee hd with hd | ⟨process, rfl⟩
    · exact h.each d hd
    · exact .idle rfl rfl

/-- One event in which no `shmat` starts beside another. -/
theorem HelperWorld.Inv.step (h : w.Inv) {e : HelperEvent} (hcond : StartsAlone w e) :
    (w.step e).Inv := by
  cases e with
  | shmat pid fromSigsys shmid allocates =>
    simp only [HelperWorld.step]
    split
    · exact h
    · rename_i c hcaller
      exact inv_shmat_call h hcaller fromSigsys shmid allocates hcond
  | enter pid =>
    refine h.of_update enterStop_pid ?_ ?_
    · exact fun c hc _ => traceeOk_enterStop (h.each c hc)
    · exact fun c _ _ => (inChain_enterStop c).1
  | connect pid => exact inv_connect h pid
  | leave pid s =>
    simp only [HelperWorld.step]
    split
    · exact h
    · rename_i c hf
      obtain ⟨hc, -⟩ := find_pid_eq_some hf
      split
      · split
        · rename_i hin
          exact inv_shmatChain h hc hin s
        · exact h
      · refine h.of_update exitStart_pid ?_ ?_
        · exact fun c hc _ => traceeOk_exitStart (h.each c hc)
        · exact fun c _ _ => (inChain_exitStart c).1
  | serve accepts =>
    refine ⟨h.nodup, h.sole, h.helper.serve accepts, fun c hc => ?_⟩
    have hown := h.each c hc
    exact ⟨hown.phase, hown.asked, hown.waiting, hown.stage.serve h.helper accepts⟩
  | clone parent child thread => exact inv_clone_tracee h parent child thread
  | exit pid =>
    refine ⟨nodup_dropTracee h.nodup, ?_, h.helper, fun c hc => h.each c (mem_dropTracee hc)⟩
    exact (List.Sublist.countP_le List.filter_sublist).trans h.sole
  | others shms =>
    simp only [HelperWorld.step]
    split
    · rename_i hkeeps
      refine ⟨h.nodup, h.sole, h.helper, fun c hc => ?_⟩
      have hown := h.each c hc
      refine ⟨hown.phase, fun hunder => ?_, hown.waiting, hown.stage⟩
      dsimp only
      rw [hkeeps c hc hunder]
      exact hown.asked hunder
    · exact h

end

theorem HelperWorld.inv_initial (pid : ℕ) : (HelperWorld.initial pid).Inv := by
  have hfresh : ¬ InChain (IpcTracee.fresh pid pid) := not_inChain_of_notChained rfl
  refine ⟨List.nodup_singleton pid, ?_, Helper.ok_initial, ?_⟩
  · simp [HelperWorld.initial, hfresh]
  · intro c hc
    rw [List.mem_singleton.1 hc]
    exact .idle rfl rfl

/-- In every run in which no `shmat` starts while another one is at its `socket`, every tracee
maps the segment that it asked for. -/
theorem mapsAsked_of_sole (pid : ℕ) (events : List HelperEvent)
    (h : AllSteps HelperWorld.step StartsAlone (HelperWorld.initial pid) events) :
    ∀ w ∈ states HelperWorld.step (HelperWorld.initial pid) events, MapsAsked w := by
  intro w hw
  apply HelperWorld.Inv.mapsAsked
  exact invariant_states (fun _ _ hcond hinv => hinv.step hcond) (HelperWorld.inv_initial pid) h
    w hw

/-- Two segments. -/
def twoSegments : List SysVIpcSharedMem :=
  [⟨1, 0, true, ⟨false, 5, 4096, 0, true⟩⟩, ⟨2, 0, true, ⟨false, 6, 4096, 0, true⟩⟩]

/-- The result of a call of the chain that goes well. -/
def goesWell (result : UInt64) (cmsgFd : Option ℕ) : ShmatStop := ⟨result, 4096, false, false, cmsgFd⟩

/-- A tracee attaches the second segment while another one waits to attach the first. -/
theorem mapsAsked_second :
    MapsAsked (([.others twoSegments, .clone 1 2 false, .shmat 1 true 2 true,
      .leave 1 (goesWell 3 none), .shmat 2 true 1 true, .enter 2, .connect 1,
      .leave 1 (goesWell 0 none), .serve true, .leave 1 (goesWell 1 (some 4))] :
        List HelperEvent).foldl HelperWorld.step (HelperWorld.initial 1)) :=
  mapsAsked_of_sole 1 _ (by decide +kernel) _ (foldl_mem_states HelperWorld.step _ _)

/-- Two tracees create their sockets one after the other, the first connects before the second,
and the tracer sees the stop of the second first. -/
theorem sockets_cross :
    ¬ ∀ (pid : ℕ) (events : List HelperEvent),
      ∀ w ∈ states HelperWorld.step (HelperWorld.initial pid) events, MapsAsked w := by
  intro h
  have hrun := h 1 [.others twoSegments, .clone 1 2 false, .shmat 1 true 1 true,
    .shmat 2 true 2 true, .leave 1 (goesWell 3 none), .leave 2 (goesWell 3 none), .connect 1,
    .connect 2, .leave 2 (goesWell 0 none), .leave 1 (goesWell 0 none), .serve true,
    .serve true, .leave 1 (goesWell 1 (some 4))] _ (foldl_mem_states HelperWorld.step _ _)
  revert hrun
  decide +kernel

end NeoProot.SysVIpc
