import NeoProot.Backend.Request

/-!
# The result of a session's command

While a command runs, the daemon sends its client frames: a header line with the kind and
the length of a payload, and the payload.  A last line gives the exit status.  The client
finds the headers in a buffer of its own, and takes a payload from what is left there
before it reads on.

## Main definitions

* `umSessionSendFrame`, `JobEnd.exitLine` — what the daemon sends.
* `umClientReceiveResult` — what the client makes of what its reads bring.

## Main results

* `umClientReceiveResult_eq` — the client writes the payloads and returns the status,
  whatever the reads.
-/

namespace NeoProot.UmSession
open Decimal

variable {n : ℕ} {line rest : Bytes}

/-! ### The daemon -/

/-- The two streams of a command. -/
inductive StreamKind
  | out
  | err
  deriving DecidableEq, Repr

def StreamKind.text : StreamKind → Bytes
  | .out => ascii "OUT"
  | .err => ascii "ERR"

/-- The largest `long`. -/
def longMax : ℕ := 2 ^ 63 - 1

/-- One payload.  No object of the C program is longer. -/
structure Frame where
  kind : StreamKind
  payload : Bytes
  length_le : payload.length ≤ longMax

/-- `um_session_send_frame`: what it sends, if the header fits its buffer. -/
def umSessionSendFrame (kind data : Bytes) : Option Bytes :=
  let header := kind ++ space :: (decimal data.length ++ [newline])
  if 64 ≤ header.length then none else some (header ++ data)

def Frame.send (f : Frame) : Option Bytes := umSessionSendFrame f.kind.text f.payload

/-- What `um_daemon_end_job` knows of the command. -/
structure JobEnd where
  timedOut : Bool
  signalled : Bool
  signalNumber : Fin 128
  status : ℤ

namespace JobEnd

/-- The status that `um_daemon_end_job` sends. -/
def exitStatus (e : JobEnd) : ℕ :=
  if e.timedOut then 124
  else if e.signalled ∧ 0 < e.signalNumber.val then 128 + e.signalNumber.val
  else if e.status < 0 ∨ 255 < e.status then 125
  else e.status.toNat

/-- The line with the status. -/
def exitLine (e : JobEnd) : Bytes := ascii "EXIT " ++ (decimal e.exitStatus ++ [newline])

theorem exitStatus_le (e : JobEnd) : e.exitStatus ≤ 255 := by
  rw [exitStatus]
  split
  · decide
  split
  · omega
  split
  · decide
  · omega

end JobEnd

/-! ### The client -/

/-- `strtol` in base ten, without the place where it ends. -/
def strtol (text : Bytes) : ℤ :=
  match readNumber text with
  | none => 0
  | some (negative, value, _) =>
    if negative then max (-(longMax + 1 : ℤ)) (-value) else min longMax value

/-- What is left of what a read brings, in front of the reads to come. -/
def unread (chunk : Bytes) (incoming : List Bytes) : List Bytes :=
  if chunk = [] then incoming else chunk :: incoming

/-- The client of a command.  `incoming` is what its reads bring before the connection is
closed, an empty one for a call that is interrupted. -/
structure Client where
  buffer : Bytes
  incoming : List Bytes
  stdout : Bytes
  stderr : Bytes

/-- How a round of the client ends. -/
inductive Round
  | go (c : Client)
  | stop (c : Client) (status : ℕ)

/-- Read so many bytes from the socket. -/
def recvExact : List Bytes → ℕ → Option (Bytes × List Bytes)
  | incoming, 0 => some ([], incoming)
  | [], _ + 1 => none
  | chunk :: incoming, n + 1 =>
    if n + 1 ≤ chunk.length then some (chunk.take (n + 1), unread (chunk.drop (n + 1)) incoming)
    else (recvExact incoming (n + 1 - chunk.length)).map fun r => (chunk ++ r.1, r.2)

namespace Client

/-- `um_client_read_payload`: what is in the buffer first, then from the socket. -/
def readPayload (c : Client) (count : ℕ) : Option (Bytes × Client) :=
  let take := min c.buffer.length count
  (recvExact c.incoming (count - take)).map fun r =>
    (c.buffer.take take ++ r.1, { c with buffer := c.buffer.drop take, incoming := r.2 })

/-- `um_client_write_all` to one of the client's own streams. -/
def write (c : Client) (kind : StreamKind) (data : Bytes) : Client :=
  match kind with
  | .out => { c with stdout := c.stdout ++ data }
  | .err => { c with stderr := c.stderr ++ data }

/-- The loop over a payload, in pieces of at most 4096 bytes, and whether it got all. -/
def forward (kind : StreamKind) : ℕ → Client → ℕ → Client × Bool
  | 0, c, _ => (c, true)
  | fuel + 1, c, count =>
    if count = 0 then (c, true)
    else
      let chunk := min count 4096
      match c.readPayload chunk with
      | none => (c, false)
      | some (payload, c) => forward kind fuel (c.write kind payload) (count - chunk)

/-- The stream that a header names, by its first letter. -/
def targetOf (line : Bytes) : StreamKind := if line.head? = some 79 then .out else .err

/-- What the client does with a line. -/
def handleLine (c : Client) (line : Bytes) : Round :=
  if line.take 4 = ascii "OUT " ∨ line.take 4 = ascii "ERR " then
    let count := (strtol (line.drop 4)).toNat
    let (c, ok) := forward (targetOf line) count c count
    if ok then .go c else .stop c 125
  else if line.take 5 = ascii "EXIT " then
    let status := strtol (line.drop 5)
    .stop c (if status < 0 ∨ 255 < status then 125 else status.toNat)
  else if line.take 3 = ascii "BAD" ∨ line.take 4 = ascii "BUSY" then
    .stop (c.write .err (ascii "neoproot-um: " ++ (line ++ [newline]))) 125
  else .go c

/-- A connection that the daemon closed. -/
def closed (c : Client) : Round :=
  .stop (c.write .err
    (ascii "neoproot-um: the session daemon closed the connection" ++ [newline])) 125

/-- One round of `um_client_receive_result`: the line that comes first in the buffer, or a
read when there is none. -/
def step (c : Client) : Round :=
  if newline ∈ c.buffer then
    let line := c.buffer.takeWhile (· ≠ newline)
    if 256 ≤ line.length then .stop c 125
    else handleLine { c with buffer := c.buffer.drop (line.length + 1) } line
  else
    match c.incoming with
    | [] => c.closed
    | chunk :: incoming =>
      let room := 1024 - c.buffer.length
      if chunk = [] then .go { c with incoming := incoming }
      -- a read of no bytes looks like the end of the stream
      else if room = 0 then c.closed
      else .go { c with
        buffer := c.buffer ++ chunk.take room
        incoming := unread (chunk.drop room) incoming }

/-- What a round takes something off. -/
def work (c : Client) : ℕ :=
  c.buffer.length + 2 * c.incoming.flatten.length + c.incoming.length

/-- The rounds of `um_client_receive_result`, and the status that it returns. -/
def receive : ℕ → Client → Client × ℕ
  | 0, c => (c, 125)
  | fuel + 1, c =>
    match c.step with
    | .go c => receive fuel c
    | .stop c status => (c, status)

/-- What the client has yet to look at. -/
def stream (c : Client) : Bytes := c.buffer ++ c.incoming.flatten

/-- What it wrote to one of its streams. -/
def written (c : Client) : StreamKind → Bytes
  | .out => c.stdout
  | .err => c.stderr

end Client

/-- `um_client_receive_result`, for what the reads bring. -/
def umClientReceiveResult (incoming : List Bytes) : Client × ℕ :=
  let c : Client := ⟨[], incoming, [], []⟩
  c.receive (c.work + 1)

/-! ### Reading -/

@[simp] theorem flatten_unread (chunk : Bytes) (incoming : List Bytes) :
    (unread chunk incoming).flatten = chunk ++ incoming.flatten := by
  rw [unread]
  split
  · rename_i h
    rw [h, List.nil_append]
  · rfl

theorem length_unread_le (chunk : Bytes) (incoming : List Bytes) :
    (unread chunk incoming).length ≤ incoming.length + 1 := by
  rw [unread]
  split
  · omega
  · exact le_rfl

theorem recvExact_eq_some {incoming rest : List Bytes} {got : Bytes}
    (h : recvExact incoming n = some (got, rest)) :
    got ++ rest.flatten = incoming.flatten ∧ got.length = n ∧ rest.length ≤ incoming.length := by
  induction incoming, n using recvExact.induct generalizing got rest with
  | case1 incoming =>
    simp only [recvExact, Option.some.injEq, Prod.mk.injEq] at h
    obtain ⟨rfl, rfl⟩ := h
    exact ⟨rfl, rfl, le_rfl⟩
  | case2 n => simp [recvExact] at h
  | case3 chunk incoming n hle =>
    simp only [recvExact, if_pos hle, Option.some.injEq, Prod.mk.injEq] at h
    obtain ⟨rfl, rfl⟩ := h
    refine ⟨?_, List.length_take_of_le hle, length_unread_le _ _⟩
    rw [flatten_unread, ← List.append_assoc, List.take_append_drop, List.flatten_cons]
  | case4 chunk incoming n hlt ih =>
    simp only [recvExact, if_neg hlt, Option.map_eq_some_iff, Prod.mk.injEq] at h
    obtain ⟨⟨got', rest'⟩, hrest, rfl, rfl⟩ := h
    obtain ⟨hflat, hlen, hle⟩ := ih hrest
    refine ⟨?_, ?_, hle.trans (Nat.le_succ _)⟩
    · rw [List.append_assoc, hflat, List.flatten_cons]
    · rw [List.length_append, hlen]
      omega

theorem recvExact_isSome {incoming : List Bytes} (h : n ≤ incoming.flatten.length) :
    (recvExact incoming n).isSome := by
  induction incoming, n using recvExact.induct with
  | case1 incoming => simp [recvExact]
  | case2 n => simp at h
  | case3 chunk incoming n hle => simp [recvExact, hle]
  | case4 chunk incoming n hlt ih =>
    rw [List.flatten_cons, List.length_append] at h
    simpa [recvExact, hlt] using ih (by omega)

namespace Client

variable {c c' : Client} {kind : StreamKind} {data payload : Bytes} {count : ℕ}

@[simp] theorem stream_write : (c.write kind data).stream = c.stream := by
  cases kind <;> rfl

@[simp] theorem work_write : (c.write kind data).work = c.work := by
  cases kind <;> rfl

theorem written_write (k : StreamKind) :
    (c.write kind data).written k = if k = kind then c.written k ++ data else c.written k := by
  cases k <;> cases kind <;> rfl

theorem readPayload_eq_some (h : c.readPayload count = some (payload, c')) :
    payload ++ c'.stream = c.stream ∧ payload.length = count ∧ c'.work ≤ c.work ∧
      c'.written = c.written := by
  simp only [readPayload, Option.map_eq_some_iff, Prod.mk.injEq] at h
  obtain ⟨⟨got, rest⟩, hrecv, rfl, rfl⟩ := h
  obtain ⟨hflat, hlen, hle⟩ := recvExact_eq_some hrecv
  have hflen := congrArg List.length hflat
  rw [List.length_append, hlen] at hflen
  refine ⟨?_, ?_, ?_, rfl⟩
  · -- The socket is read only when the buffer is empty.
    simp only [stream]
    by_cases hcount : count ≤ c.buffer.length
    · have hnone : got = [] := by
        apply List.eq_nil_of_length_eq_zero
        omega
      rw [hnone] at hflat ⊢
      rw [List.append_nil, ← List.append_assoc, List.take_append_drop, ← hflat, List.nil_append]
    · rw [Nat.min_eq_left (by omega), List.take_length, List.drop_length, List.nil_append,
        List.append_assoc, hflat]
  · rw [List.length_append, List.length_take, hlen]
    omega
  · simp only [work, List.length_drop]
    omega

theorem readPayload_isSome (h : count ≤ c.stream.length) : (c.readPayload count).isSome := by
  rw [stream, List.length_append] at h
  have hrecv : (recvExact c.incoming (count - min c.buffer.length count)).isSome :=
    recvExact_isSome (by omega)
  simpa [readPayload] using hrecv

theorem work_forward_le (kind : StreamKind) (fuel : ℕ) (c : Client) (count : ℕ) :
    (forward kind fuel c count).1.work ≤ c.work := by
  induction fuel generalizing c count with
  | zero => exact le_rfl
  | succ fuel ih =>
    simp only [forward]
    split
    · exact le_rfl
    · cases hread : c.readPayload (min count 4096) with
      | none => exact le_rfl
      | some r =>
        obtain ⟨payload, c'⟩ := r
        have hwork := (readPayload_eq_some hread).2.2.1
        have hrest := ih (c'.write kind payload) (count - min count 4096)
        rw [work_write] at hrest
        exact hrest.trans hwork

theorem written_write_nil (c : Client) (kind : StreamKind) :
    (c.write kind []).written = c.written := by
  funext k
  rw [written_write]
  split <;> simp

theorem written_write_append (c : Client) (kind : StreamKind) (data data' : Bytes) :
    (c.write kind (data ++ data')).written = ((c.write kind data).write kind data').written := by
  funext k
  simp only [written_write]
  split <;> simp

/-- What is written shows only in what was written before. -/
theorem written_write_congr (h : c.written = c'.written) (kind : StreamKind) (data : Bytes) :
    (c.write kind data).written = (c'.write kind data).written := by
  funext k
  rw [written_write, written_write, h]

/-- **A payload is forwarded** as it is, whether it is in the buffer or not. -/
theorem forward_eq (kind : StreamKind) {fuel : ℕ} (hfuel : payload.length ≤ fuel)
    (hstream : c.stream = payload ++ rest) :
    ∃ c', forward kind fuel c payload.length = (c', true) ∧ c'.stream = rest ∧
      c'.written = (c.write kind payload).written := by
  induction fuel generalizing c payload with
  | zero =>
    obtain rfl := List.eq_nil_of_length_eq_zero (by omega : payload.length = 0)
    exact ⟨c, rfl, hstream, (written_write_nil c kind).symm⟩
  | succ fuel ih =>
    by_cases hcount : payload.length = 0
    · obtain rfl := List.eq_nil_of_length_eq_zero hcount
      exact ⟨c, rfl, hstream, (written_write_nil c kind).symm⟩
    · have hlen := congrArg List.length hstream
      rw [List.length_append] at hlen
      have hsome : (c.readPayload (min payload.length 4096)).isSome :=
        readPayload_isSome (by omega)
      obtain ⟨⟨piece, c'⟩, hread⟩ := Option.isSome_iff_exists.1 hsome
      obtain ⟨hpiece, hpieceLen, -, hwritten⟩ := readPayload_eq_some hread
      -- The piece is the front of the payload.
      rw [hstream] at hpiece
      obtain ⟨later, rfl⟩ : piece <+: payload :=
        List.prefix_of_prefix_length_le (⟨_, hpiece⟩ : piece <+: payload ++ rest)
          (List.prefix_append payload rest) (by omega)
      rw [List.append_assoc, List.append_cancel_left_eq] at hpiece
      rw [List.length_append] at hcount hfuel hpieceLen hread
      have hrest : piece.length + later.length - min (piece.length + later.length) 4096 =
          later.length := by omega
      obtain ⟨c'', hforward, hstream'', hwritten''⟩ :=
        @ih (c'.write kind piece) later (by omega) (by rw [stream_write, hpiece])
      refine ⟨c'', ?_, hstream'', ?_⟩
      · simp only [forward, List.length_append, if_neg hcount, hread, hrest]
        exact hforward
      · rw [hwritten'', written_write_append]
        exact written_write_congr (written_write_congr hwritten kind piece) kind later

/-! ### Rounds -/

theorem work_handleLine_le (h : c.handleLine line = .go c') : c'.work ≤ c.work := by
  simp only [handleLine] at h
  split at h
  · split at h
    · rw [Round.go.injEq] at h
      rw [← h]
      exact work_forward_le _ _ _ _
    · exact absurd h (by simp)
  split at h
  · exact absurd h (by simp)
  split at h
  · exact absurd h (by simp)
  · rw [Round.go.injEq] at h
    rw [h]

/-- **Every round takes something off**, so the client comes to an end. -/
theorem work_step_lt (h : c.step = .go c') : c'.work < c.work := by
  simp only [step] at h
  split at h
  · rename_i hline
    split at h
    · exact absurd h (by simp)
    · have hle := work_handleLine_le h
      have hpos : 0 < c.buffer.length := List.length_pos_of_mem hline
      simp only [work, List.length_drop] at hle ⊢
      omega
  · split at h
    · exact absurd h (by simp [closed])
    · rename_i chunk incoming hincoming
      split at h
      · rename_i hempty
        rw [Round.go.injEq] at h
        rw [← h]
        simp only [work, hincoming, hempty, List.flatten_cons, List.nil_append, List.length_cons]
        omega
      split at h
      · exact absurd h (by simp [closed])
      · rename_i hsome hroom
        rw [Round.go.injEq] at h
        rw [← h]
        have hpos := List.length_pos_iff.2 hsome
        have hunread := length_unread_le (chunk.drop (1024 - c.buffer.length)) incoming
        simp only [work, hincoming, flatten_unread, List.flatten_cons, List.length_append,
          List.length_take, List.length_drop, List.length_cons]
        omega

/-- The line that comes next is in the buffer, or the buffer holds the front of it. -/
theorem buffer_cases (hstream : c.stream = line ++ newline :: rest) (hline : newline ∉ line) :
    (∃ later, c.buffer = line ++ newline :: later ∧ rest = later ++ c.incoming.flatten) ∨
      newline ∉ c.buffer ∧ c.buffer.length ≤ line.length ∧ c.incoming.flatten ≠ [] :=
  Lines.front_cases hstream hline

/-- A line that comes next is looked at once it is in the buffer, and read for before. -/
theorem step_of_line (hstream : c.stream = line ++ newline :: rest) (hline : newline ∉ line)
    (hshort : line.length < 256) :
    (∃ c', c.step = .go c' ∧ c'.stream = c.stream ∧ c'.written = c.written) ∨
      ∃ c' : Client, c.step = c'.handleLine line ∧ c'.stream = rest ∧ c'.written = c.written := by
  obtain ⟨later, hbuffer, hrest⟩ | ⟨hbuffer, hlen, hflat⟩ := buffer_cases hstream hline
  · right
    have htake : c.buffer.takeWhile (· ≠ newline) = line := by
      rw [hbuffer]
      exact Lines.takeWhile_line hline later
    have hmem : newline ∈ c.buffer := by
      rw [hbuffer]
      simp
    refine ⟨{ c with buffer := c.buffer.drop (line.length + 1) }, ?_, ?_, rfl⟩
    · simp only [step, if_pos hmem, htake, if_neg (Nat.not_le_of_lt hshort)]
    · have hdrop : c.buffer.drop (line.length + 1) = later := by
        rw [hbuffer, List.append_cons]
        apply List.drop_left'
        rw [List.length_append, List.length_singleton]
      rw [stream, hdrop, hrest]
  · left
    cases hincoming : c.incoming with
    | nil => simp [hincoming] at hflat
    | cons chunk incoming =>
      by_cases hempty : chunk = []
      · refine ⟨{ c with incoming := incoming }, ?_, ?_, rfl⟩
        · simp only [step, if_neg hbuffer, hincoming, if_pos hempty]
        · simp only [stream, hincoming, hempty, List.flatten_cons, List.nil_append]
      · -- Only the front of a header can wait in the buffer, so there is room.
        have hroom : 1024 - c.buffer.length ≠ 0 := by omega
        refine ⟨{ c with
          buffer := c.buffer ++ chunk.take (1024 - c.buffer.length)
          incoming := unread (chunk.drop (1024 - c.buffer.length)) incoming }, ?_, ?_, rfl⟩
        · simp only [step, if_neg hbuffer, hincoming, if_neg hempty, if_neg hroom]
        · simp only [stream, hincoming, flatten_unread, List.flatten_cons]
          rw [List.append_assoc, ← List.append_assoc (List.take _ chunk), List.take_append_drop]

end Client

/-! ### Frames -/

namespace Frame

/-- The header of a frame, without its newline. -/
def header (f : Frame) : Bytes := f.kind.text ++ space :: decimal f.payload.length

/-- The bytes of a frame. -/
def bytes (f : Frame) : Bytes := f.header ++ newline :: f.payload

theorem length_header_lt (f : Frame) : f.header.length < 63 := by
  have hlen : (decimal f.payload.length).length ≤ 19 := by
    apply length_decimal_le (by omega)
    exact Nat.lt_of_le_of_lt f.length_le (by decide)
  have hkind : f.kind.text.length = 3 := by
    cases f.kind <;> rfl
  rw [header, List.length_append, List.length_cons, hkind]
  omega

/-- A header fits the buffer of the daemon. -/
theorem send_eq (f : Frame) : f.send = some f.bytes := by
  have hlen := f.length_header_lt
  have hheader : f.kind.text ++ space :: (decimal f.payload.length ++ [newline]) =
      f.header ++ [newline] := by
    rw [header, List.append_assoc, List.cons_append]
  rw [send, umSessionSendFrame, hheader, if_neg]
  · rw [bytes, List.append_assoc, List.singleton_append]
  · rw [List.length_append, List.length_singleton]
    omega

theorem newline_not_mem_header (f : Frame) : newline ∉ f.header := by
  have hkind : newline ∉ f.kind.text := by
    cases f.kind <;> decide
  rw [header, List.mem_append, List.mem_cons]
  rintro (h | h | h)
  · exact hkind h
  · exact absurd h (by decide)
  · exact not_mem_decimal (by decide) h

/-- The header without its number, and the number. -/
theorem header_eq (f : Frame) : f.header.take 4 = f.kind.text ++ [space] ∧
    f.header.drop 4 = decimal f.payload.length ∧ Client.targetOf f.header = f.kind := by
  obtain ⟨kind, payload, -⟩ := f
  cases kind
  · exact ⟨rfl, rfl, rfl⟩
  · exact ⟨rfl, rfl, rfl⟩

end Frame

theorem strtol_decimal (h : n ≤ longMax) : strtol (decimal n) = n := by
  have hread : readNumber (decimal n ++ []) = some (false, n, []) := readNumber_decimal (by simp)
  rw [List.append_nil] at hread
  rw [strtol, hread]
  simp only [Bool.false_eq_true, if_false]
  omega

namespace Client

variable {c : Client}

/-- **One frame.** -/
theorem handleLine_header {f : Frame} (hstream : c.stream = f.payload ++ rest) :
    ∃ c', c.handleLine f.header = .go c' ∧ c'.stream = rest ∧
      c'.written = (c.write f.kind f.payload).written := by
  obtain ⟨htake, hdrop, htarget⟩ := f.header_eq
  have hkind : f.header.take 4 = ascii "OUT " ∨ f.header.take 4 = ascii "ERR " := by
    rw [htake]
    cases f.kind
    · exact .inl rfl
    · exact .inr rfl
  have hcount : (strtol (f.header.drop 4)).toNat = f.payload.length := by
    rw [hdrop, strtol_decimal f.length_le, Int.toNat_natCast]
  obtain ⟨c', hforward, hrest, hwritten⟩ := forward_eq f.kind le_rfl hstream
  refine ⟨c', ?_, hrest, hwritten⟩
  simp only [handleLine, if_pos hkind, hcount, htarget, hforward, if_true]

theorem handleLine_exit (c : Client) (e : JobEnd) :
    c.handleLine (ascii "EXIT " ++ decimal e.exitStatus) = .stop c e.exitStatus := by
  have hle := e.exitStatus_le
  have htake : (ascii "EXIT " ++ decimal e.exitStatus).take 4 = ascii "EXIT" := rfl
  have htake' : (ascii "EXIT " ++ decimal e.exitStatus).take 5 = ascii "EXIT " := rfl
  have hdrop : (ascii "EXIT " ++ decimal e.exitStatus).drop 5 = decimal e.exitStatus := rfl
  have hstatus : strtol (decimal e.exitStatus) = e.exitStatus :=
    strtol_decimal (hle.trans (by decide))
  have hnot : ¬ (ascii "EXIT" = ascii "OUT " ∨ ascii "EXIT" = ascii "ERR ") := by decide
  simp only [handleLine, htake, htake', hdrop, hstatus, if_neg hnot, if_true]
  rw [if_neg (by omega), Int.toNat_natCast]

theorem written_foldl_congr {c' : Client} (h : c.written = c'.written) (frames : List Frame) :
    (frames.foldl (fun c f => c.write f.kind f.payload) c).written =
      (frames.foldl (fun c f => c.write f.kind f.payload) c').written := by
  induction frames generalizing c c' with
  | nil => exact h
  | cons f frames ih => exact ih (written_write_congr h f.kind f.payload)

/-- **A whole stream**, however much of it is in the buffer. -/
theorem receive_eq (e : JobEnd) {fuel : ℕ} {frames : List Frame} (hfuel : c.work < fuel)
    (hstream : c.stream = frames.flatMap Frame.bytes ++ (e.exitLine ++ rest)) :
    ∃ c', c.receive fuel = (c', e.exitStatus) ∧
      c'.written = (frames.foldl (fun c f => c.write f.kind f.payload) c).written := by
  induction fuel generalizing c frames with
  | zero => omega
  | succ fuel ih =>
    -- A read leaves the stream as it is, and takes something off the work.
    have hread : ∀ c', c.step = .go c' → c'.stream = c.stream → c'.written = c.written →
        ∃ c', c.receive (fuel + 1) = (c', e.exitStatus) ∧
          c'.written = (frames.foldl (fun c f => c.write f.kind f.payload) c).written := by
      intro c' hstep hsame hwritten
      have hwork := work_step_lt hstep
      obtain ⟨c'', hreceive, hwritten''⟩ := ih (by omega) (hsame.trans hstream)
      refine ⟨c'', ?_, hwritten''.trans (written_foldl_congr hwritten frames)⟩
      simp only [receive, hstep, hreceive]
    cases frames with
    | nil =>
      have hline : c.stream = (ascii "EXIT " ++ decimal e.exitStatus) ++ newline :: rest := by
        rw [hstream, JobEnd.exitLine]
        simp only [List.flatMap_nil, List.nil_append, List.append_assoc, List.singleton_append]
      have hnot : newline ∉ ascii "EXIT " ++ decimal e.exitStatus := by
        rw [List.mem_append, not_or]
        exact ⟨by decide, not_mem_decimal (by decide)⟩
      have hshort : (ascii "EXIT " ++ decimal e.exitStatus).length < 256 := by
        have hdigits : (decimal e.exitStatus).length ≤ 3 :=
          length_decimal_le (by omega) (Nat.lt_of_le_of_lt e.exitStatus_le (by decide))
        have hword : (ascii "EXIT ").length = 5 := rfl
        rw [List.length_append, hword]
        omega
      obtain ⟨c', hstep, hsame, hwritten⟩ | ⟨c', hstep, -, hwritten⟩ :=
        step_of_line hline hnot hshort
      · exact hread c' hstep hsame hwritten
      · rw [handleLine_exit] at hstep
        refine ⟨c', ?_, hwritten⟩
        simp only [receive, hstep]
    | cons f frames =>
      have hline : c.stream = f.header ++ newline ::
          (f.payload ++ (frames.flatMap Frame.bytes ++ (e.exitLine ++ rest))) := by
        rw [hstream, List.flatMap_cons, Frame.bytes]
        simp only [List.append_assoc, List.cons_append]
      have hshort := f.length_header_lt
      obtain ⟨c', hstep, hsame, hwritten⟩ | ⟨c', hstep, hafter, hwritten⟩ :=
        step_of_line hline f.newline_not_mem_header (by omega)
      · exact hread c' hstep hsame hwritten
      · obtain ⟨c'', hhandle, hrest, hwritten'⟩ := handleLine_header hafter
        rw [hhandle] at hstep
        have hwork := work_step_lt hstep
        obtain ⟨c₃, hreceive, hwritten₃⟩ := ih (by omega) hrest
        refine ⟨c₃, ?_, ?_⟩
        · simp only [receive, hstep, hreceive]
        · rw [hwritten₃, List.foldl_cons]
          apply written_foldl_congr
          rw [hwritten']
          exact written_write_congr hwritten f.kind f.payload

theorem written_foldl (frames : List Frame) (k : StreamKind) :
    (frames.foldl (fun c f => c.write f.kind f.payload) c).written k =
      c.written k ++ (frames.filter fun f => f.kind = k).flatMap Frame.payload := by
  induction frames generalizing c with
  | nil => simp
  | cons f frames ih =>
    rw [List.foldl_cons, ih, written_write]
    by_cases hk : k = f.kind
    · subst hk
      simp
    · rw [if_neg hk, List.filter_cons_of_neg (by simpa using Ne.symm hk)]

end Client

/-- The payloads of one stream. -/
def payloads (kind : StreamKind) (frames : List Frame) : Bytes :=
  (frames.filter fun f => f.kind = kind).flatMap Frame.payload

/-- **The client writes what the daemon sent** to each stream, and returns the status,
whatever the reads that bring it. -/
theorem umClientReceiveResult_eq {frames : List Frame} {e : JobEnd} {sent incoming : List Bytes}
    {rest : Bytes} (hsent : frames.mapM Frame.send = some sent)
    (hincoming : incoming.flatten = sent.flatten ++ (e.exitLine ++ rest)) :
    (umClientReceiveResult incoming).2 = e.exitStatus ∧
      (umClientReceiveResult incoming).1.stdout = payloads .out frames ∧
      (umClientReceiveResult incoming).1.stderr = payloads .err frames := by
  have hbytes : sent = frames.map Frame.bytes := by
    have hall : frames.mapM Frame.send = some (frames.map Frame.bytes) := by
      rw [show Frame.send = fun f => pure f.bytes from funext Frame.send_eq]
      exact List.mapM_pure
    rw [hall, Option.some.injEq] at hsent
    exact hsent.symm
  have hstream : (⟨[], incoming, [], []⟩ : Client).stream =
      frames.flatMap Frame.bytes ++ (e.exitLine ++ rest) := by
    rw [Client.stream, List.nil_append, hincoming, hbytes, List.flatMap_def]
  obtain ⟨c', hreceive, hwritten⟩ := Client.receive_eq e (Nat.lt_succ_self _) hstream
  rw [umClientReceiveResult, hreceive]
  refine ⟨rfl, ?_, ?_⟩
  · have hout := (congrFun hwritten .out).trans (Client.written_foldl frames .out)
    exact hout
  · have herr := (congrFun hwritten .err).trans (Client.written_foldl frames .err)
    exact herr

/-- Two frames, of which one looks like the last line, cut in the middle of a header and of
a payload. -/
theorem umClientReceiveResult_cut :
    let frames : List Frame := [⟨.out, ascii "EXIT 9\nx", by decide⟩, ⟨.err, ascii "e\n", by decide⟩]
    let result := umClientReceiveResult
      [ascii "OU", [], ascii "T 8\nEXIT", ascii " 9\nxERR 2\ne", ascii "\nEXIT 3\n"]
    result.2 = 3 ∧ result.1.stdout = payloads .out frames ∧ result.1.stderr = payloads .err frames :=
  @umClientReceiveResult_eq [⟨.out, ascii "EXIT 9\nx", by decide⟩, ⟨.err, ascii "e\n", by decide⟩]
    ⟨false, false, 0, 3⟩ [ascii "OUT 8\nEXIT 9\nx", ascii "ERR 2\ne\n"] _ [] (by decide) (by decide)

end NeoProot.UmSession
