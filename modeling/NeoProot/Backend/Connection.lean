import NeoProot.Backend.Request
import NeoProot.Lib.Run

/-!
# The connection of a client

A client sends the header of its command, the payload, and lines while the command runs.  The
daemon reads the header and the payload with a reader of their own, and then, with another, one
line whenever it finds the socket readable.

## Main definitions

* `Conversation` — what a client sends.
* `Connection`, `step` — the connection at the daemon, read by read.
* `Kept` — what arrived was acted upon in order, or waits to be.

## Main results

* `conversation_iff` — a run keeps what arrives exactly when no read takes more than the daemon then
  looks at.
* `conversation_served` — while the command runs, the daemon comes to rest with all served.
-/

namespace NeoProot.UmSession
open Lines Run

variable {held l later : Bytes} {ls ms : List Bytes}

/-- What the daemon acts upon. -/
inductive Act
  | header (line : Bytes)
  | payload (bytes : Bytes)
  | line (line : Bytes)
  deriving DecidableEq

variable {rest : List Act}

/-- An act as it was sent. -/
def Act.bytes : Act → Bytes
  | .header l | .line l => l ++ [newline]
  | .payload p => p

/-- A command with its payload, and the lines that the client sends after it. -/
structure Conversation where
  header : Bytes
  timeoutMs : ℕ
  payload : Bytes
  lines : List Bytes
  parsed : umDaemonParseExec header = some (payload.length, timeoutMs)
  header_text : newline ∉ header ∧ 0 ∉ header
  header_short : header.length < 256
  lines_text : ∀ l ∈ lines, newline ∉ l
  lines_short : ∀ l ∈ lines, l.length < 256

namespace Conversation

/-- What the daemon is to do. -/
def acts (c : Conversation) : List Act :=
  .header c.header :: .payload c.payload :: c.lines.map .line

/-- What the client sends. -/
def bytes (c : Conversation) : Bytes := c.acts.flatMap Act.bytes

end Conversation

/-! ### The daemon -/

/-- Where the daemon is with the connection. -/
inductive Stage
  | header
  | payload (length timeoutMs : ℕ) (received : Bytes)
  /-- The command runs, and the daemon waits in `poll`. -/
  | waiting
  /-- `poll` found the socket readable, and perhaps hung up. -/
  | reading (hangup : Bool)
  /-- The client left. -/
  | gone
  /-- The command ended, or was not started. -/
  | ended
  deriving DecidableEq

/-- What of the payload is in the daemon's own buffer. -/
def Stage.received : Stage → Bytes
  | .payload _ _ received => received
  | .header | .waiting | .reading _ | .gone | .ended => []

/-- The daemon still listens to the client. -/
def Stage.Serving (stage : Stage) : Prop := stage ≠ .gone ∧ stage ≠ .ended

/-- A connection: what the client has yet to send, what arrived and what of it no read took,
whether the client closed it, the reader in use, and what the daemon acted upon. -/
structure Connection where
  left : Bytes
  arrived : Bytes
  socket : Bytes
  closed : Bool
  reader : Bytes
  stage : Stage
  acts : List Act

/-- A client that has connected. -/
def Conversation.initial (c : Conversation) : Connection :=
  ⟨c.bytes, [], [], false, [], .header, []⟩

/-- `UM_LINE_READER_SIZE`. -/
def readerSize : ℕ := 4096

/-- How a round of `um_session_read_line` ends. -/
inductive Reading
  | line (line : Bytes) (s : Connection)
  | fails
  | again (s : Connection)

/-- How many bytes a read takes that may take `most`. -/
def cut (n most : ℕ) : ℕ := min (max 1 n) most

/-- A round of `um_session_read_line` with a socket that blocks; a read brings at most `n`
bytes, and at least one. -/
def umSessionReadLineRound (s : Connection) (size n : ℕ) : Reading :=
  if newline ∈ s.reader then
    let line := s.reader.takeWhile (· ≠ newline)
    if size < line.length + 1 then .fails
    else .line line { s with reader := s.reader.drop (line.length + 1) }
  else if readerSize ≤ s.reader.length then .fails
  else if s.socket = [] then if s.closed then .fails else .again s
  else
    let got := cut n (readerSize - s.reader.length)
    .again { s with reader := s.reader ++ s.socket.take got, socket := s.socket.drop got }

/-- What `um_daemon_handle` makes of the first line. -/
def handleHeader (s : Connection) (line : Bytes) : Connection :=
  let text := line.takeWhile (· ≠ 0)
  let s := { s with acts := s.acts ++ [Act.header line] }
  if text = ascii "STOP" ∨ text = ascii "STATUS" then { s with stage := .ended }
  else match umDaemonParseExec text with
    | none => { s with stage := .ended }
    | some (length, timeoutMs) => { s with stage := .payload length timeoutMs [] }

/-- A round of `um_daemon_accept_payload`. -/
def umDaemonAcceptPayloadRound (s : Connection) (length timeoutMs : ℕ) (received : Bytes) (n : ℕ) :
    Connection :=
  if length ≤ received.length then s
  -- whatever arrived with the header is part of the payload
  else if s.reader ≠ [] then
    let take := min s.reader.length (length - received.length)
    { s with
      reader := s.reader.drop take
      stage := .payload length timeoutMs (received ++ s.reader.take take) }
  else if s.socket = [] then if s.closed then { s with stage := .gone } else s
  else
    let got := cut n (length - received.length)
    { s with
      socket := s.socket.drop got
      stage := .payload length timeoutMs (received ++ s.socket.take got) }

/-- What can happen to a connection. -/
inductive ConnectionEvent
  | arrive (count : ℕ)
  | close
  /-- The daemon's next round: a `poll`, or a read of at most `n` bytes. -/
  | work (n : ℕ)
  /-- Five seconds pass in which nothing of the payload comes. -/
  | stall
  /-- The daemon has the payload, and writes it to the queue if it can. -/
  | start (queued : Bool)
  /-- The command ends. -/
  | finish
  deriving DecidableEq

namespace Connection

/-- The daemon's next round. -/
def work (s : Connection) (n : ℕ) : Connection :=
  match s.stage with
  | .header =>
    match umSessionReadLineRound s 256 n with
    | .line line s => handleHeader s line
    | .fails => { s with stage := .gone }
    | .again s => s
  | .payload length timeoutMs received => umDaemonAcceptPayloadRound s length timeoutMs received n
  | .waiting => if s.socket ≠ [] ∨ s.closed then { s with stage := .reading s.closed } else s
  | .reading hangup =>
    match umSessionReadLineRound s 256 n with
    | .line line s =>
      { s with acts := s.acts ++ [.line line], stage := if hangup then .gone else .waiting }
    | .fails => { s with stage := .gone }
    | .again s => s
  | .gone | .ended => s

/-- Start the command; the reader of the request is not used any more. -/
def start (s : Connection) (queued : Bool) : Connection :=
  match s.stage with
  | .payload length _ received =>
    if received.length < length then s
    else if queued then
      { s with acts := s.acts ++ [.payload received], reader := [], stage := .waiting }
    else { s with stage := .ended }
  | .header | .waiting | .reading _ | .gone | .ended => s

def step (s : Connection) : ConnectionEvent → Connection
  | .arrive count =>
    if s.closed then s
    else { s with
      left := s.left.drop count
      arrived := s.arrived ++ s.left.take count
      socket := s.socket ++ s.left.take count }
  | .close => { s with closed := true }
  | .work n => s.work n
  | .stall =>
    match s.stage with
    | .payload length _ received =>
      if received.length < length ∧ s.reader = [] ∧ s.socket = [] ∧ s.closed = false then
        { s with stage := .ended }
      else s
    | .header | .waiting | .reading _ | .gone | .ended => s
  | .start queued => s.start queued
  | .finish => if s.stage = .waiting then { s with stage := .ended } else s

/-! ### What is kept -/

/-- The daemon acted upon all that has arrived of the conversation. -/
def Served (c : Conversation) (s : Connection) : Prop :=
  ∀ as : List Act, as <+: c.acts → as.flatMap Act.bytes <+: s.arrived → as.length ≤ s.acts.length

/-- Nothing brings the daemon to look at the connection before more arrives. -/
def Rests (s : Connection) : Prop :=
  s.stage = .gone ∨ s.socket = [] ∧ s.closed = false ∧
    (s.stage = .waiting ∨ (∃ hangup, s.stage = .reading hangup) ∧ newline ∉ s.reader)

/-- What the daemon did was sent, in this order; the rest of what arrived is still held; and
when it rests there is nothing left to act upon. -/
structure Kept (c : Conversation) (s : Connection) : Prop where
  acts : s.acts <+: c.acts
  held : s.stage.Serving →
    s.acts.flatMap Act.bytes ++ (s.stage.received ++ (s.reader ++ s.socket)) = s.arrived
  served : s.Rests → s.Served c

/-- No read brings more than the daemon looks at: nothing with the payload that comes after it,
no second line where the socket is then empty, or where the client hung up. -/
def TakesOne (s : Connection) : ConnectionEvent → Prop
  | .start queued =>
    match s.stage with
    | .payload length _ received => length ≤ received.length → queued = true → s.reader = []
    | .header | .waiting | .reading _ | .gone | .ended => True
  | .work _ =>
    match s.stage with
    | .reading hangup =>
      newline ∈ s.reader →
        let later := (s.reader.dropWhile (· ≠ newline)).tail
        if hangup then newline ∉ later ++ s.socket
        else s.socket = [] → s.closed = false → newline ∉ later
    | .header | .payload _ _ _ | .waiting | .gone | .ended => True
  | .arrive _ | .close | .stall | .finish => True

instance (s : Connection) (e : ConnectionEvent) : Decidable (s.TakesOne e) := by
  unfold TakesOne
  cases e <;> dsimp only <;> first | infer_instance | (split <;> infer_instance)

end Connection

/-! ### The conversation -/

namespace Conversation

variable (c : Conversation)

/-- Where the daemon is in the conversation: the acts done, and those to come. -/
inductive Place : Stage → List Act → List Act → Prop
  | header : Place .header [] c.acts
  | payload (received : Bytes) (hle : received.length ≤ c.payload.length) :
    Place (.payload c.payload.length c.timeoutMs received) [.header c.header]
      (.payload c.payload :: c.lines.map .line)
  | waiting (ls ms : List Bytes) (h : ls ++ ms = c.lines) :
    Place .waiting (.header c.header :: .payload c.payload :: ls.map .line) (ms.map .line)
  | reading (hangup : Bool) (ls ms : List Bytes) (h : ls ++ ms = c.lines) :
    Place (.reading hangup) (.header c.header :: .payload c.payload :: ls.map .line) (ms.map .line)

variable {c}

theorem Place.acts {stage : Stage} {as bs : List Act} (h : c.Place stage as bs) :
    as ++ bs = c.acts := by
  cases h with
  | header => rfl
  | payload => rfl
  | waiting ls ms h =>
    rw [Conversation.acts, ← h, List.map_append, List.cons_append, List.cons_append]
  | reading hangup ls ms h =>
    rw [Conversation.acts, ← h, List.map_append, List.cons_append, List.cons_append]

theorem flatMap_line (ls : List Bytes) :
    (ls.map Act.line).flatMap Act.bytes = unlines newline ls := by
  rw [List.flatMap_map]
  rfl

end Conversation

namespace Connection

variable {c : Conversation} {s : Connection}

/-- What of the conversation arrived is `arrived`, and the daemon is in it at some place. -/
structure Sound (c : Conversation) (s : Connection) : Prop where
  arrived : s.arrived ++ s.left = c.bytes
  place : s.stage.Serving → ∃ rest, c.Place s.stage s.acts rest
  hangup : s.stage = .gone ∨ s.stage = .reading true → s.closed = true

theorem rest_eq (hacts : s.acts ++ rest = c.acts) (harrived : s.arrived ++ s.left = c.bytes)
    (hheld : s.acts.flatMap Act.bytes ++ held = s.arrived) :
    held ++ s.left = rest.flatMap Act.bytes := by
  have hall : s.acts.flatMap Act.bytes ++ (held ++ s.left) =
      s.acts.flatMap Act.bytes ++ rest.flatMap Act.bytes := by
    rw [← List.append_assoc, hheld, harrived, ← List.flatMap_append, hacts]
    rfl
  exact List.append_cancel_left hall

/-- What the daemon holds begins with what it is to act upon next. -/
theorem held_eq (h : Sound c s) (hk : Kept c s) (hserving : s.stage.Serving)
    (hplace : c.Place s.stage s.acts rest) :
    (s.stage.received ++ (s.reader ++ s.socket)) ++ s.left = rest.flatMap Act.bytes :=
  rest_eq hplace.acts h.arrived (hk.held hserving)

/-- All is served when the next act has not arrived whole. -/
theorem served_iff (hacts : s.acts ++ rest = c.acts)
    (hheld : s.acts.flatMap Act.bytes ++ held = s.arrived) :
    s.Served c ↔ ∀ a ∈ rest.head?, ¬ a.bytes <+: held := by
  constructor
  · intro hserved a ha hprefix
    obtain ⟨more, rfl⟩ : ∃ more, rest = a :: more := by
      obtain ⟨more, hmore⟩ := List.head?_eq_some_iff.1 ha
      exact ⟨more, hmore⟩
    have hlong := hserved (s.acts ++ [a]) ?_ ?_
    · rw [List.length_append, List.length_singleton] at hlong
      omega
    · rw [← hacts]
      exact ⟨more, by simp⟩
    · rw [← hheld, List.flatMap_append, List.prefix_append_right_inj]
      simpa using hprefix
  · intro hnext as has harrived
    by_contra hlong
    rw [← hacts] at has
    obtain ⟨more, rfl⟩ : ∃ more, as = s.acts ++ more := by
      obtain ⟨t, ht⟩ :=
        List.prefix_of_prefix_length_le (List.prefix_append s.acts rest) has (by omega)
      exact ⟨t, ht.symm⟩
    rw [List.prefix_append_right_inj] at has
    rw [← hheld, List.flatMap_append, List.prefix_append_right_inj] at harrived
    cases more with
    | nil => simp at hlong
    | cons a more =>
      obtain ⟨t, rfl⟩ := has
      refine hnext a rfl ?_
      rw [List.flatMap_cons] at harrived
      exact (List.prefix_append _ _).trans harrived

/-- A line has arrived whole exactly when a newline has. -/
theorem served_line_iff {left : Bytes} (hline : ∀ l ∈ ls, newline ∉ l)
    (hheld : held ++ left = unlines newline ls) :
    (∀ a ∈ (ls.map Act.line).head?, ¬ a.bytes <+: held) ↔ newline ∉ held := by
  cases ls with
  | nil =>
    rw [unlines_nil, List.append_eq_nil_iff] at hheld
    rw [hheld.1]
    exact iff_of_true (fun a ha => nomatch ha) List.not_mem_nil
  | cons l ls =>
    rw [unlines_cons] at hheld
    have hnext : (∀ a ∈ ((l :: ls).map Act.line).head?, ¬ a.bytes <+: held) ↔
        ¬ (l ++ [newline]) <+: held := by
      simp [Act.bytes]
    rw [hnext, not_iff_not]
    constructor
    · intro hprefix
      exact hprefix.subset (by simp)
    · intro hmem
      obtain ⟨later, hlater, -⟩ | ⟨hnot, -⟩ := front_cases hheld (hline l List.mem_cons_self)
      · exact ⟨later, by rw [hlater]; simp⟩
      · exact absurd hmem hnot

/-! ### One round -/

/-- A line that is in the reader is taken. -/
theorem round_line (n : ℕ) (hreader : s.reader = l ++ newline :: later) (hl : newline ∉ l)
    (hshort : l.length < 256) :
    umSessionReadLineRound s 256 n = .line l { s with reader := later } := by
  have htake : s.reader.takeWhile (· ≠ newline) = l := by
    rw [hreader]
    exact takeWhile_line hl later
  have hdrop : s.reader.drop (l.length + 1) = later := by
    rw [hreader, List.append_cons]
    apply List.drop_left'
    rw [List.length_append, List.length_singleton]
  have hmem : newline ∈ s.reader := by
    rw [hreader]
    simp
  have hfits : ¬ 256 < l.length + 1 := by omega
  simp only [umSessionReadLineRound, if_pos hmem, htake, if_neg hfits, hdrop]

/-- Without one the daemon reads on. -/
theorem round_more (n : ℕ) (hnot : newline ∉ s.reader) (hshort : s.reader.length < 256) :
    s.socket = [] ∧ s.closed = true ∧ umSessionReadLineRound s 256 n = .fails ∨
      s.socket = [] ∧ s.closed = false ∧ umSessionReadLineRound s 256 n = .again s ∨
      ∃ reader socket, reader ++ socket = s.reader ++ s.socket ∧
        umSessionReadLineRound s 256 n = .again { s with reader := reader, socket := socket } := by
  have hroom : ¬ readerSize ≤ s.reader.length := by
    rw [readerSize]
    omega
  by_cases hsocket : s.socket = []
  · cases hclosed : s.closed with
    | true =>
      refine .inl ⟨hsocket, rfl, ?_⟩
      simp [umSessionReadLineRound, hnot, hroom, hsocket, hclosed]
    | false =>
      refine .inr (.inl ⟨hsocket, rfl, ?_⟩)
      simp [umSessionReadLineRound, hnot, hroom, hsocket, hclosed]
  · refine .inr (.inr ⟨s.reader ++ s.socket.take (cut n (readerSize - s.reader.length)),
      s.socket.drop (cut n (readerSize - s.reader.length)), ?_, ?_⟩)
    · rw [List.append_assoc, List.take_append_drop]
    · simp only [umSessionReadLineRound, if_neg hnot, if_neg hroom, if_neg hsocket]

/-! ### What is served -/

/-- The rest of the conversation is lines, and all is served that has a newline. -/
theorem served_job (hacts : s.acts = .header c.header :: .payload c.payload :: ls.map .line)
    (hls : ls ++ ms = c.lines) (harrived : s.arrived ++ s.left = c.bytes)
    (hheld : s.acts.flatMap Act.bytes ++ held = s.arrived) : s.Served c ↔ newline ∉ held := by
  have hall : s.acts ++ ms.map Act.line = c.acts := by
    rw [hacts]
    exact (Conversation.Place.waiting ls ms hls).acts
  have hrest : held ++ s.left = unlines newline ms := by
    rw [← Conversation.flatMap_line]
    exact rest_eq hall harrived hheld
  rw [served_iff hall hheld]
  exact served_line_iff (fun l hl => c.lines_text l (hls ▸ List.mem_append_right ls hl)) hrest

/-- The reader begins with the next line, or has no newline. -/
theorem reader_cases (hacts : s.acts = .header c.header :: .payload c.payload :: ls.map .line)
    (hls : ls ++ ms = c.lines) (harrived : s.arrived ++ s.left = c.bytes)
    (hheld : s.acts.flatMap Act.bytes ++ (s.reader ++ s.socket) = s.arrived) :
    (∃ l ns later, ms = l :: ns ∧ s.reader = l ++ newline :: later ∧ newline ∉ l ∧ l.length < 256) ∨
      newline ∉ s.reader ∧ s.reader.length < 256 := by
  have hall : s.acts ++ ms.map Act.line = c.acts := by
    rw [hacts]
    exact (Conversation.Place.waiting ls ms hls).acts
  have hrest : s.reader ++ (s.socket ++ s.left) = unlines newline ms := by
    rw [← Conversation.flatMap_line, ← List.append_assoc]
    exact rest_eq hall harrived hheld
  cases ms with
  | nil =>
    rw [unlines_nil, List.append_eq_nil_iff] at hrest
    rw [hrest.1]
    exact .inr ⟨List.not_mem_nil, by decide⟩
  | cons l ns =>
    have hmem : l ∈ c.lines := hls ▸ List.mem_append_right ls List.mem_cons_self
    rw [unlines_cons] at hrest
    obtain ⟨later, hlater, -⟩ | ⟨hnot, hle, -⟩ := front_cases hrest (c.lines_text l hmem)
    · exact .inl ⟨l, ns, later, rfl, hlater, c.lines_text l hmem, c.lines_short l hmem⟩
    · exact .inr ⟨hnot, lt_of_le_of_lt hle (c.lines_short l hmem)⟩

/-- A connection whose command runs. -/
structure Runs (c : Conversation) (s : Connection) (ls ms : List Bytes) : Prop where
  stage : s.stage = .waiting ∨ ∃ hangup, s.stage = .reading hangup
  acts : s.acts = .header c.header :: .payload c.payload :: ls.map .line
  lines : ls ++ ms = c.lines
  arrived : s.arrived ++ s.left = c.bytes
  held : s.acts.flatMap Act.bytes ++ (s.reader ++ s.socket) = s.arrived
  hangup : s.stage = .reading true → s.closed = true

namespace Runs

variable {ls ms : List Bytes}

theorem serving (h : Runs c s ls ms) : s.stage.Serving := by
  obtain hstage | ⟨hangup, hstage⟩ := h.stage
  · rw [hstage]
    exact ⟨nofun, nofun⟩
  · rw [hstage]
    exact ⟨nofun, nofun⟩

theorem received (h : Runs c s ls ms) : s.stage.received = [] := by
  obtain hstage | ⟨hangup, hstage⟩ := h.stage
  · rw [hstage]
    rfl
  · rw [hstage]
    rfl

theorem sound (h : Runs c s ls ms) : Sound c s := by
  refine ⟨h.arrived, fun _ => ⟨ms.map .line, ?_⟩, fun hstage => ?_⟩
  · rw [h.acts]
    obtain hstage | ⟨hangup, hstage⟩ := h.stage
    · rw [hstage]
      exact .waiting ls ms h.lines
    · rw [hstage]
      exact .reading hangup ls ms h.lines
  · obtain hgone | hreading := hstage
    · exact absurd hgone h.serving.1
    · exact h.hangup hreading

/-- Such a connection is kept when at rest it holds no line. -/
theorem kept_iff (h : Runs c s ls ms) : Kept c s ↔ (s.Rests → newline ∉ s.reader ++ s.socket) := by
  have hserved := served_job h.acts h.lines h.arrived h.held
  constructor
  · intro hk hrests
    exact hserved.1 (hk.served hrests)
  · intro hrest
    refine ⟨?_, fun _ => ?_, fun hrests => hserved.2 (hrest hrests)⟩
    · rw [h.acts]
      exact ⟨ms.map .line, (Conversation.Place.waiting ls ms h.lines).acts⟩
    · rw [h.received, List.nil_append]
      exact h.held

end Runs

/-- A kept connection in its command runs. -/
theorem Sound.runs (h : Sound c s) (hk : Kept c s)
    (hstage : s.stage = .waiting ∨ ∃ hangup, s.stage = .reading hangup) :
    ∃ ls ms, Runs c s ls ms := by
  have hserving : s.stage.Serving := by
    obtain hw | ⟨hangup, hw⟩ := hstage
    · rw [hw]
      exact ⟨nofun, nofun⟩
    · rw [hw]
      exact ⟨nofun, nofun⟩
  obtain ⟨rest, hplace⟩ := h.place hserving
  have hheld := hk.held hserving
  obtain hw | ⟨hangup, hw⟩ := hstage
  · rw [hw] at hplace hheld
    generalize hacts : s.acts = as at hplace
    cases hplace with
    | waiting ls ms hls =>
      exact ⟨ls, ms, .inl hw, hacts, hls, h.arrived, hheld, fun hr => h.hangup (.inr hr)⟩
  · rw [hw] at hplace hheld
    generalize hacts : s.acts = as at hplace
    cases hplace with
    | reading _ ls ms hls =>
      exact ⟨ls, ms, .inr ⟨hangup, hw⟩, hacts, hls, h.arrived, hheld, fun hr => h.hangup (.inr hr)⟩

/-! ### Steps -/

/-- A client that left while its command ran is kept when nothing that was held is a line. -/
theorem Runs.gone_iff (h : Runs c s ls ms) :
    Kept c { s with stage := .gone } ↔ newline ∉ s.reader ++ s.socket := by
  have hserved : Served c { s with stage := .gone } ↔ newline ∉ s.reader ++ s.socket :=
    served_job (s := { s with stage := .gone }) h.acts h.lines h.arrived h.held
  constructor
  · intro hk
    exact hserved.1 (hk.served (.inl rfl))
  · intro hnot
    refine ⟨?_, fun hserving => absurd rfl hserving.1, fun _ => hserved.2 hnot⟩
    change s.acts <+: c.acts
    rw [h.acts]
    exact ⟨ms.map .line, (Conversation.Place.waiting ls ms h.lines).acts⟩

theorem Sound.gone (h : Sound c s) (hclosed : s.closed = true) :
    Sound c { s with stage := .gone } :=
  ⟨h.arrived, fun hserving => absurd rfl hserving.1, fun _ => hclosed⟩

theorem Sound.ended (h : Sound c s) : Sound c { s with stage := .ended } :=
  ⟨h.arrived, fun hserving => absurd rfl hserving.2, fun hstage => by simp at hstage⟩

/-- A connection that is over is kept. -/
theorem Kept.ended (hk : Kept c s) : Kept c { s with stage := .ended } :=
  ⟨hk.acts, fun hserving => absurd rfl hserving.2, fun hrests => by simp [Rests] at hrests⟩

/-- A read that brings more keeps the connection as it runs. -/
theorem Runs.more (h : Runs c s ls ms) {reader socket : Bytes}
    (heq : reader ++ socket = s.reader ++ s.socket) :
    Runs c { s with reader := reader, socket := socket } ls ms :=
  ⟨h.stage, h.acts, h.lines, h.arrived, by rw [← h.held, heq], h.hangup⟩

/-- The next line is taken. -/
theorem Runs.line {ns : List Bytes} (h : Runs c s ls (l :: ns))
    (hreader : s.reader = l ++ newline :: later) :
    Runs c { s with reader := later, acts := s.acts ++ [.line l], stage := .waiting }
      (ls ++ [l]) ns := by
  refine ⟨.inl rfl, ?_, ?_, h.arrived, ?_, fun hstage => by cases hstage⟩
  · rw [h.acts]
    simp
  · rw [← h.lines]
    simp
  · rw [← h.held, hreader, List.flatMap_append]
    simp [Act.bytes]

/-- What follows the first line of a reader. -/
theorem later_eq (hl : newline ∉ l) :
    ((l ++ newline :: later).dropWhile (· ≠ newline)).tail = later := by
  have hall : ∀ b ∈ l, decide (b ≠ newline) = true := by
    intro b hb
    simpa using fun heq : b = newline => hl (heq ▸ hb)
  rw [List.dropWhile_append_of_pos hall, List.dropWhile_cons_of_neg (by simp)]
  rfl

/-- A round that reads for a line, while the command runs. -/
theorem step_reading (h : Sound c s) (hk : Kept c s) {hangup : Bool}
    (hstage : s.stage = .reading hangup) (n : ℕ) :
    Sound c (s.work n) ∧ (Kept c (s.work n) ↔ s.TakesOne (.work n)) := by
  obtain ⟨ls, ms, hruns⟩ := h.runs hk (.inr ⟨hangup, hstage⟩)
  obtain ⟨l, ns, later, rfl, hreader, hl, hshort⟩ | ⟨hnot, hshort⟩ :=
    reader_cases hruns.acts hruns.lines hruns.arrived hruns.held
  · have hline := hruns.line hreader
    have hmem : newline ∈ s.reader := by
      rw [hreader]
      simp
    have htakes : s.TakesOne (.work n) ↔ if hangup then newline ∉ later ++ s.socket
        else s.socket = [] → s.closed = false → newline ∉ later := by
      simp only [TakesOne, hstage]
      rw [hreader, later_eq hl, ← hreader]
      exact ⟨fun htakes => htakes hmem, fun htakes _ => htakes⟩
    rw [htakes]
    cases hangup with
    | true =>
      have hwork : s.work n =
          { s with reader := later, acts := s.acts ++ [.line l], stage := .gone } := by
        simp only [work, hstage, round_line n hreader hl hshort, if_true]
      rw [hwork, if_pos rfl]
      exact ⟨hline.sound.gone (hruns.hangup hstage), hline.gone_iff⟩
    | false =>
      have hwork : s.work n =
          { s with reader := later, acts := s.acts ++ [.line l], stage := .waiting } := by
        simp only [work, hstage, round_line n hreader hl hshort, Bool.false_eq_true, if_false]
      rw [hwork, hline.kept_iff, if_neg (by simp)]
      refine ⟨hline.sound, ?_⟩
      constructor
      · intro hrest hsocket hclosed hlater
        exact hrest (.inr ⟨hsocket, hclosed, .inl rfl⟩) (List.mem_append_left _ hlater)
      · rintro htakes (hgone | ⟨hsocket, hclosed, -⟩)
        · cases hgone
        · have hnone := htakes hsocket hclosed
          rw [List.mem_append, not_or]
          exact ⟨hnone, by rw [hsocket]; exact List.not_mem_nil⟩
  · -- without a line there is nothing to lose yet
    have htakes : s.TakesOne (.work n) := by
      simp only [TakesOne, hstage]
      exact fun hmem => absurd hmem hnot
    rw [iff_true_right htakes]
    obtain ⟨hsocket, hclosed, hround⟩ | ⟨hsocket, hclosed, hround⟩ | ⟨reader, socket, heq, hround⟩ :=
      round_more n hnot hshort
    · have hwork : s.work n = { s with stage := .gone } := by
        simp only [work, hstage, hround]
      rw [hwork]
      refine ⟨h.gone hclosed, hruns.gone_iff.2 ?_⟩
      rw [hsocket, List.append_nil]
      exact hnot
    · have hwork : s.work n = s := by
        simp only [work, hstage, hround]
      rw [hwork]
      exact ⟨h, hk⟩
    · have hwork : s.work n = { s with reader := reader, socket := socket } := by
        simp only [work, hstage, hround]
      have hmore := hruns.more heq
      rw [hwork]
      refine ⟨hmore.sound, hmore.kept_iff.2 ?_⟩
      rintro (hgone | ⟨hsocket, -, hwaits | ⟨-, hreader⟩⟩)
      · exact absurd hgone hmore.serving.1
      · rw [hstage] at hwaits
        cases hwaits
      · dsimp only at hsocket hreader ⊢
        rw [hsocket, List.append_nil]
        exact hreader

theorem Kept.of_busy (hacts : s.acts <+: c.acts)
    (hheld : s.acts.flatMap Act.bytes ++ (s.stage.received ++ (s.reader ++ s.socket)) = s.arrived)
    (hbusy : ¬ s.Rests) : Kept c s := ⟨hacts, fun _ => hheld, fun hrests => absurd hrests hbusy⟩

/-- A client that leaves before the next act has arrived whole is kept. -/
theorem Kept.of_gone (rest : List Act) (held : Bytes) (hacts : s.acts ++ rest = c.acts)
    (hheld : s.acts.flatMap Act.bytes ++ held = s.arrived)
    (hnext : ∀ a ∈ rest.head?, ¬ a.bytes <+: held) : Kept c { s with stage := .gone } := by
  refine ⟨⟨rest, hacts⟩, fun hserving => absurd rfl hserving.1, fun _ => ?_⟩
  exact (served_iff (s := { s with stage := .gone }) hacts hheld).2 hnext

/-- What the daemon makes of the header. -/
theorem handleHeader_header :
    handleHeader s c.header =
      { s with
        acts := s.acts ++ [.header c.header]
        stage := .payload c.payload.length c.timeoutMs [] } := by
  have htext : c.header.takeWhile (· ≠ 0) = c.header := by
    rw [List.takeWhile_eq_self_iff]
    intro b hb
    simpa using fun heq : b = 0 => c.header_text.2 (heq ▸ hb)
  have hexec : ¬ (c.header = ascii "STOP" ∨ c.header = ascii "STATUS") := by
    rintro (heq | heq)
    · have hparsed := c.parsed
      rw [heq] at hparsed
      exact absurd hparsed (by rw [show umDaemonParseExec (ascii "STOP") = none by decide]; simp)
    · have hparsed := c.parsed
      rw [heq] at hparsed
      exact absurd hparsed (by rw [show umDaemonParseExec (ascii "STATUS") = none by decide]; simp)
  simp only [handleHeader, htext, if_neg hexec, c.parsed]

/-- A round that reads for the header. -/
theorem step_header (h : Sound c s) (hk : Kept c s) (hstage : s.stage = .header) (n : ℕ) :
    Sound c (s.work n) ∧ Kept c (s.work n) := by
  have hserving : s.stage.Serving := by
    rw [hstage]
    exact ⟨nofun, nofun⟩
  obtain ⟨rest, hplace⟩ := h.place hserving
  have hheld := hk.held hserving
  have hall := held_eq h hk hserving hplace
  rw [hstage] at hplace hheld hall
  generalize hacts : s.acts = as at hplace hheld hall
  cases hplace with
  | header =>
    have hfront : s.reader ++ (s.socket ++ s.left) =
        c.header ++ newline :: (c.payload ++ unlines newline c.lines) := by
      rw [← List.append_assoc]
      simpa [Stage.received, Conversation.acts, Act.bytes, Conversation.flatMap_line] using hall
    obtain ⟨later, hreader, -⟩ | ⟨hnot, hle, -⟩ := front_cases hfront c.header_text.1
    · have hwork : s.work n =
          { s with
            reader := later, acts := [.header c.header]
            stage := .payload c.payload.length c.timeoutMs [] } := by
        simp only [work, hstage, round_line n hreader c.header_text.1 c.header_short,
          handleHeader_header, hacts, List.nil_append]
      rw [hwork]
      refine ⟨⟨h.arrived, fun _ => ⟨_, .payload [] (Nat.zero_le _)⟩, fun hgone => by simp at hgone⟩,
        .of_busy ⟨_, rfl⟩ ?_ (by simp [Rests])⟩
      rw [← hheld, hreader]
      simp [Act.bytes, Stage.received]
    · have hshort : s.reader.length < 256 := lt_of_le_of_lt hle c.header_short
      obtain ⟨hsocket, hclosed, hround⟩ | ⟨-, -, hround⟩ | ⟨reader, socket, heq, hround⟩ :=
        round_more n hnot hshort
      · have hwork : s.work n = { s with stage := .gone } := by
          simp only [work, hstage, hround]
        rw [hwork]
        refine ⟨h.gone hclosed, .of_gone c.acts s.reader ?_ ?_ ?_⟩
        · rw [hacts, List.nil_append]
        · rw [← hheld, hacts, hsocket]
          simp [Stage.received]
        · intro a ha hfront
          obtain rfl := Option.some.inj ha
          exact hnot (hfront.subset (by simp [Act.bytes]))
      · have hwork : s.work n = s := by
          simp only [work, hstage, hround]
        rw [hwork]
        exact ⟨h, hk⟩
      · have hwork : s.work n = { s with reader := reader, socket := socket } := by
          simp only [work, hstage, hround]
        rw [hwork]
        refine ⟨⟨h.arrived, h.place, h.hangup⟩, .of_busy hk.acts ?_ ?_⟩
        · rw [← hk.held hserving, heq]
        · simp [Rests, hstage]

/-- A round that reads for the payload. -/
theorem step_payload (h : Sound c s) (hk : Kept c s) {length timeoutMs : ℕ} {received : Bytes}
    (hstage : s.stage = .payload length timeoutMs received) (n : ℕ) :
    Sound c (s.work n) ∧ Kept c (s.work n) := by
  have hserving : s.stage.Serving := by
    rw [hstage]
    exact ⟨nofun, nofun⟩
  obtain ⟨rest, hplace⟩ := h.place hserving
  have hheld := hk.held hserving
  rw [hstage] at hplace hheld
  have hwork : s.work n = umDaemonAcceptPayloadRound s length timeoutMs received n := by
    simp only [work, hstage]
  generalize hacts : s.acts = as at hplace
  cases hplace with
  | payload _ hle =>
    -- what a round moves from the reader or the socket is held as part of the payload
    have hmoved : ∀ (front reader socket : Bytes),
        front ++ (reader ++ socket) = s.reader ++ s.socket →
        (received ++ front).length ≤ c.payload.length →
        Sound c { s with
          reader := reader, socket := socket
          stage := .payload c.payload.length c.timeoutMs (received ++ front) } ∧
        Kept c { s with
          reader := reader, socket := socket
          stage := .payload c.payload.length c.timeoutMs (received ++ front) } := by
      intro front reader socket heq hroom
      refine ⟨⟨h.arrived, fun _ => ⟨.payload c.payload :: c.lines.map .line, ?_⟩,
        fun hgone => by simp at hgone⟩, .of_busy hk.acts ?_ (by simp [Rests])⟩
      · exact hacts ▸ .payload (received ++ front) hroom
      · rw [← hheld, ← heq]
        simp [Stage.received]
    rw [hwork, umDaemonAcceptPayloadRound]
    split
    · exact ⟨h, hk⟩
    rename_i hmore
    split
    · refine hmoved _ _ s.socket ?_ ?_
      · rw [← List.append_assoc, List.take_append_drop]
      · rw [List.length_append, List.length_take]
        omega
    rename_i hreader
    rw [ne_eq, not_not] at hreader
    split
    · rename_i hsocket
      split
      · rename_i hclosed
        refine ⟨h.gone hclosed, .of_gone (.payload c.payload :: c.lines.map .line) received ?_ ?_ ?_⟩
        · rw [hacts]
          rfl
        · rw [← hheld, hreader, hsocket]
          simp [Stage.received]
        · intro a ha hfront
          obtain rfl := Option.some.inj ha
          exact hmore hfront.length_le
      · exact ⟨h, hk⟩
    · refine hmoved _ s.reader _ ?_ ?_
      · rw [hreader, List.nil_append, List.nil_append, List.take_append_drop]
      · rw [List.length_append, List.length_take, cut]
        omega

/-- A round of the daemon keeps what arrives exactly when it takes one line at a time. -/
theorem step_work (h : Sound c s) (hk : Kept c s) (n : ℕ) :
    Sound c (s.work n) ∧ (Kept c (s.work n) ↔ s.TakesOne (.work n)) := by
  cases hstage : s.stage with
  | header =>
    obtain ⟨hsound, hkept⟩ := step_header h hk hstage n
    exact ⟨hsound, iff_of_true hkept (by simp only [TakesOne, hstage])⟩
  | payload length timeoutMs received =>
    obtain ⟨hsound, hkept⟩ := step_payload h hk hstage n
    exact ⟨hsound, iff_of_true hkept (by simp only [TakesOne, hstage])⟩
  | waiting =>
    have htakes : s.TakesOne (.work n) := by simp only [TakesOne, hstage]
    obtain ⟨ls, ms, hruns⟩ := h.runs hk (.inl hstage)
    simp only [work, hstage]
    split
    · rename_i hready
      have hreading : Runs c { s with stage := .reading s.closed } ls ms :=
        ⟨.inr ⟨s.closed, rfl⟩, hruns.acts, hruns.lines, hruns.arrived, hruns.held,
          fun hstage => Stage.reading.inj hstage⟩
      refine ⟨hreading.sound, iff_of_true (hreading.kept_iff.2 ?_) htakes⟩
      rintro (hgone | ⟨hsocket, hclosed, -⟩)
      · cases hgone
      · obtain hmore | hclosed' := hready
        · exact absurd hsocket hmore
        · rw [hclosed'] at hclosed
          cases hclosed
    · exact ⟨h, iff_of_true hk htakes⟩
  | reading hangup => exact step_reading h hk hstage n
  | gone =>
    have hwork : s.work n = s := by simp only [work, hstage]
    rw [hwork]
    exact ⟨h, iff_of_true hk (by simp only [TakesOne, hstage])⟩
  | ended =>
    have hwork : s.work n = s := by simp only [work, hstage]
    rw [hwork]
    exact ⟨h, iff_of_true hk (by simp only [TakesOne, hstage])⟩

/-- Starting the command keeps what arrived exactly when the reader has nothing beyond the
payload. -/
theorem step_start (h : Sound c s) (hk : Kept c s) (queued : Bool) :
    Sound c (s.start queued) ∧ (Kept c (s.start queued) ↔ s.TakesOne (.start queued)) := by
  cases hstage : s.stage with
  | payload length timeoutMs received =>
    simp only [start, TakesOne, hstage]
    split
    · exact ⟨h, iff_of_true hk fun hle => by omega⟩
    rename_i hwhole
    cases queued with
    | false => exact ⟨h.ended, iff_of_true hk.ended fun _ hfalse => by cases hfalse⟩
    | true =>
      have hserving : s.stage.Serving := by
        rw [hstage]
        exact ⟨nofun, nofun⟩
      obtain ⟨rest, hplace⟩ := h.place hserving
      have hheld := hk.held hserving
      have hall := held_eq h hk hserving hplace
      rw [hstage] at hplace hheld hall
      generalize hacts : s.acts = as at hplace
      cases hplace with
      | payload _ hle =>
        -- the daemon has read the payload and nothing else into its buffer
        have hpayload : received = c.payload := by
          have heq : received ++ (s.reader ++ s.socket ++ s.left) =
              c.payload ++ unlines newline c.lines := by
            simpa [Stage.received, Act.bytes, Conversation.flatMap_line] using hall
          exact (List.append_inj heq (by omega)).1
        subst hpayload
        rw [if_pos rfl]
        have hkept : s.acts.flatMap Act.bytes ++ (c.payload ++ (s.reader ++ s.socket)) = s.arrived :=
          hheld
        rw [hacts] at hkept
        refine ⟨⟨h.arrived, fun _ => ⟨c.lines.map .line, .waiting [] c.lines rfl⟩,
          fun hgone => by simp at hgone⟩, ?_⟩
        constructor
        · intro hk' _ _
          have hheld' := hk'.held ⟨nofun, nofun⟩
          rw [← hkept] at hheld'
          have hlen := congrArg List.length hheld'
          simp only [Act.bytes, Stage.received, List.flatMap_append, List.flatMap_cons,
            List.flatMap_nil, List.length_append, List.length_nil] at hlen
          apply List.eq_nil_of_length_eq_zero
          omega
        · intro hnone
          have hruns : Runs c { s with
              acts := [.header c.header] ++ [.payload c.payload], reader := [], stage := .waiting }
              [] c.lines := by
            refine ⟨.inl rfl, rfl, rfl, h.arrived, ?_, fun hreading => by cases hreading⟩
            rw [← hkept, hnone le_rfl rfl]
            simp [Act.bytes]
          refine hruns.kept_iff.2 ?_
          rintro (hgone | ⟨hsocket, -⟩)
          · cases hgone
          · change newline ∉ [] ++ s.socket
            rw [show s.socket = [] from hsocket]
            exact List.not_mem_nil
  | header => simpa only [start, TakesOne, hstage, iff_true] using ⟨h, hk⟩
  | waiting => simpa only [start, TakesOne, hstage, iff_true] using ⟨h, hk⟩
  | reading hangup => simpa only [start, TakesOne, hstage, iff_true] using ⟨h, hk⟩
  | gone => simpa only [start, TakesOne, hstage, iff_true] using ⟨h, hk⟩
  | ended => simpa only [start, TakesOne, hstage, iff_true] using ⟨h, hk⟩

/-- Bytes that arrive wait in the socket. -/
theorem step_arrive (h : Sound c s) (hk : Kept c s) (count : ℕ) :
    Sound c (s.step (.arrive count)) ∧ Kept c (s.step (.arrive count)) := by
  simp only [step]
  split
  · exact ⟨h, hk⟩
  rename_i hopen
  refine ⟨⟨?_, h.place, h.hangup⟩, hk.acts, fun hserving => ?_, fun hrests => ?_⟩
  · rw [List.append_assoc, List.take_append_drop]
    exact h.arrived
  · rw [← hk.held hserving]
    simp only [List.append_assoc]
  · obtain hgone | ⟨hsocket, hwaits⟩ := hrests
    · exact absurd (h.hangup (.inl hgone)) hopen
    · -- nothing arrived, or the daemon would look at the socket
      rw [List.append_eq_nil_iff] at hsocket
      have hserved := hk.served (.inr ⟨hsocket.1, hwaits⟩)
      intro as has harrived
      rw [hsocket.2, List.append_nil] at harrived
      exact hserved as has harrived

/-- One event keeps what arrives exactly when it takes one line at a time. -/
theorem step_kept (h : Sound c s) (hk : Kept c s) (e : ConnectionEvent) :
    Sound c (s.step e) ∧ (Kept c (s.step e) ↔ s.TakesOne e) := by
  cases e with
  | arrive count =>
    obtain ⟨hsound, hkept⟩ := step_arrive h hk count
    exact ⟨hsound, iff_of_true hkept trivial⟩
  | close =>
    refine ⟨⟨h.arrived, h.place, fun _ => rfl⟩, iff_of_true ⟨hk.acts, hk.held, ?_⟩ trivial⟩
    rintro (hgone | ⟨-, hclosed, -⟩)
    · exact hk.served (.inl hgone)
    · cases hclosed
  | work n => exact step_work h hk n
  | stall =>
    cases hstage : s.stage with
    | payload length timeoutMs received =>
      simp only [step, hstage, TakesOne, iff_true]
      split
      · exact ⟨h.ended, hk.ended⟩
      · exact ⟨h, hk⟩
    | _ => simpa only [step, hstage, TakesOne, iff_true] using ⟨h, hk⟩
  | start queued => exact step_start h hk queued
  | finish =>
    simp only [step, TakesOne, iff_true]
    split
    · exact ⟨h.ended, hk.ended⟩
    · exact ⟨h, hk⟩

/-! ### Coming to rest -/

/-- The command runs, or the client left while it did. -/
def InJob (s : Connection) : Prop :=
  s.stage = .waiting ∨ (∃ hangup, s.stage = .reading hangup) ∨ s.stage = .gone

/-- What each round of the daemon takes something off. -/
def toDo (s : Connection) : ℕ :=
  4 * s.socket.length + 2 * s.reader.length +
    match s.stage with
    | .waiting => 2
    | .reading _ => 1
    | .header | .payload _ _ _ | .gone | .ended => 0

theorem work_toDo_lt (hjob : s.InJob) (hbusy : ¬ s.Rests) (n : ℕ) :
    (s.work n).InJob ∧ (s.work n).toDo < s.toDo := by
  obtain hstage | ⟨hangup, hstage⟩ | hstage := hjob
  · have hready : s.socket ≠ [] ∨ s.closed = true := by
      by_contra hno
      rw [not_or, not_not, Bool.not_eq_true] at hno
      exact hbusy (.inr ⟨hno.1, hno.2, .inl hstage⟩)
    simp only [work, hstage, if_pos hready, toDo]
    exact ⟨.inr (.inl ⟨_, rfl⟩), by omega⟩
  · by_cases hmem : newline ∈ s.reader
    · by_cases hlong : 256 < (s.reader.takeWhile (· ≠ newline)).length + 1
      · simp only [work, hstage, umSessionReadLineRound, if_pos hmem, if_pos hlong, toDo]
        exact ⟨.inr (.inr rfl), by omega⟩
      · have hpos := List.length_pos_of_mem hmem
        simp only [work, hstage, umSessionReadLineRound, if_pos hmem, if_neg hlong, toDo,
          List.length_drop]
        cases hangup with
        | true => exact ⟨.inr (.inr rfl), by simp only [if_true]; omega⟩
        | false => exact ⟨.inl rfl, by simp only [Bool.false_eq_true, if_false]; omega⟩
    · by_cases hfull : readerSize ≤ s.reader.length
      · simp only [work, hstage, umSessionReadLineRound, if_neg hmem, if_pos hfull, toDo]
        exact ⟨.inr (.inr rfl), by omega⟩
      · by_cases hsocket : s.socket = []
        · have hclosed : s.closed = true := by
            by_contra hopen
            rw [Bool.not_eq_true] at hopen
            exact hbusy (.inr ⟨hsocket, hopen, .inr ⟨⟨hangup, hstage⟩, hmem⟩⟩)
          simp only [work, hstage, umSessionReadLineRound, if_neg hmem, if_neg hfull,
            if_pos hsocket, if_pos hclosed, toDo]
          exact ⟨.inr (.inr rfl), by omega⟩
        · have hpos := List.length_pos_iff.2 hsocket
          simp only [work, hstage, umSessionReadLineRound, if_neg hmem, if_neg hfull,
            if_neg hsocket, toDo, cut, List.length_append, List.length_take, List.length_drop]
          exact ⟨.inr (.inl ⟨hangup, rfl⟩), by omega⟩
  · exact absurd (.inl hstage) hbusy

/-- While the command runs the daemon comes to rest, however much its reads bring. -/
theorem works_rest (hjob : s.InJob) (ns : List ℕ) (hlong : s.toDo ≤ ns.length) :
    ∃ ms, ms <+: ns ∧ (ms.foldl work s).Rests := by
  induction ns generalizing s with
  | nil =>
    by_contra hno
    have hbusy : ¬ s.Rests := fun hrests => hno ⟨[], List.prefix_refl _, hrests⟩
    have hlt := (work_toDo_lt hjob hbusy 0).2
    rw [List.length_nil] at hlong
    omega
  | cons n ns ih =>
    by_cases hrests : s.Rests
    · exact ⟨[], List.nil_prefix, hrests⟩
    · obtain ⟨hjob', hlt⟩ := work_toDo_lt hjob hrests n
      rw [List.length_cons] at hlong
      obtain ⟨ms, hms, hrest⟩ := ih hjob' (by omega)
      exact ⟨n :: ms, List.cons_prefix_cons.2 ⟨rfl, hms⟩, hrest⟩

end Connection

/-! ### Runs -/

/-- However a conversation arrives and is read, the daemon acts upon all that arrived, once and
in order, exactly when no read takes more than it then looks at. -/
theorem conversation_iff (c : Conversation) (es : List ConnectionEvent) :
    (∀ s ∈ states Connection.step c.initial es, s.Kept c) ↔
      AllSteps Connection.step Connection.TakesOne c.initial es := by
  have hinitial : Connection.Kept c c.initial :=
    .of_busy ⟨c.acts, rfl⟩ rfl (by simp [Connection.Rests, Conversation.initial])
  apply states_iff_allSteps_of_kept (I := Connection.Sound c)
  · intro s e h hk _
    exact (Connection.step_kept h hk e).1
  · intro s e h hk
    exact (Connection.step_kept h hk e).2
  · exact ⟨rfl, fun _ => ⟨c.acts, .header⟩, fun hgone => by simp [Conversation.initial] at hgone⟩
  · exact hinitial

/-- **While the command runs, the daemon comes to act upon all that arrived**, however much its
reads bring, as long as no read brings more than it then looks at. -/
theorem conversation_served {c : Conversation} {es : List ConnectionEvent} {ns : List ℕ}
    (htakes : AllSteps Connection.step Connection.TakesOne c.initial
      (es ++ ns.map ConnectionEvent.work)) (hjob : (es.foldl Connection.step c.initial).InJob)
    (hlong : (es.foldl Connection.step c.initial).toDo ≤ ns.length) :
    ∃ ms, ms <+: ns ∧
      ((es ++ ms.map ConnectionEvent.work).foldl Connection.step c.initial).Rests ∧
        ((es ++ ms.map ConnectionEvent.work).foldl Connection.step c.initial).Served c := by
  obtain ⟨ms, hms, hrests⟩ := Connection.works_rest hjob ns hlong
  have hrun : ms.foldl Connection.work (es.foldl Connection.step c.initial) =
      (es ++ ms.map ConnectionEvent.work).foldl Connection.step c.initial := by
    rw [List.foldl_append, List.foldl_map]
    rfl
  rw [hrun] at hrests
  refine ⟨ms, hms, hrests, ?_⟩
  obtain ⟨later, rfl⟩ := hms
  rw [List.map_append, ← List.append_assoc, allSteps_append] at htakes
  have hinitial : Connection.Sound c c.initial ∧ Connection.Kept c c.initial :=
    ⟨⟨rfl, fun _ => ⟨c.acts, .header⟩, by simp [Conversation.initial]⟩,
      .of_busy ⟨c.acts, rfl⟩ rfl (by simp [Connection.Rests, Conversation.initial])⟩
  have hkept := invariant_foldl (fun s e htakes (h : Connection.Sound c s ∧ Connection.Kept c s) =>
    ⟨(Connection.step_kept h.1 h.2 e).1, (Connection.step_kept h.1 h.2 e).2.2 htakes⟩)
    hinitial htakes.1
  exact hkept.2.served hrests

/-- A client that sends `true` and an interrupt. -/
def interrupts : Conversation where
  header := ascii "EXEC 8 0"
  timeoutMs := 0
  payload := ascii "\n4\ntrue\n"
  lines := [ascii "SIGNAL 2"]
  parsed := by decide
  header_text := by decide
  header_short := by decide
  lines_text := by decide
  lines_short := by decide

/-- The client waits until each part is read. -/
def parts : List ConnectionEvent :=
  [.arrive 9, .work 9, .work 1, .arrive 8, .work 8, .start true, .arrive 9]

theorem interrupts_served : ∃ ms, ms <+: List.replicate 38 9 ∧
    ((parts ++ ms.map ConnectionEvent.work).foldl Connection.step interrupts.initial).Rests ∧
      ((parts ++ ms.map ConnectionEvent.work).foldl Connection.step interrupts.initial).Served
        interrupts :=
  conversation_served (by decide +kernel) (.inl (by decide +kernel)) (by decide +kernel)

/-- All of it is there when the daemon reads for the header, and the interrupt is dropped with
the reader. -/
theorem interrupt_dropped :
    ¬ ∀ (c : Conversation) (es : List ConnectionEvent),
        ∀ s ∈ states Connection.step c.initial es, s.Kept c := by
  intro h
  have hlast := h interrupts [.arrive 100, .work 4096, .work 4096, .work 1, .start true, .work 1] _
    (foldl_mem_states Connection.step interrupts.initial _)
  have hserved := hlast.served (.inr (by decide +kernel)) interrupts.acts (List.prefix_refl _)
    (by decide +kernel)
  revert hserved
  decide +kernel

end NeoProot.UmSession
