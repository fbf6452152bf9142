import NeoProot.Lib.Run
import NeoProot.Lib.Slots
import Mathlib.Data.Int.Notation
import Mathlib.Data.Nat.Notation
import Mathlib.Logic.Function.Basic

/-!
# The `netlink_route` extension

Where the host refuses route sockets, requests for the links and the addresses of the host are
answered by the extension.  It keeps two tables: the netlink sockets of the tracee with their
protocols, and the reply that each of them has still to read.  A socket leaves the first table when
it is closed; its entry in the second table is emptied and stays.

Sending is always emulated.  What the host tells about its interfaces, and what it answers to a
call that reaches it, are inputs.

## Main definitions

* `Config` — the two tables.
* `answerRequest`, `servePendingRecvfrom`, `servePendingRecvmsg` — what the calls do to them.
* `State.step` — a call, and what it is to the sockets behind the descriptors.
-/

namespace NeoProot.NetlinkRoute

/-- Some bytes. -/
abbrev Bytes := List UInt8

/-- `AF_NETLINK`. -/
def afNetlink : ℤ := 16

/-- `NETLINK_ROUTE`. -/
def netlinkRoute : ℤ := 0

/-- `NetlinkRouteFd`. -/
structure NetlinkRouteFd where
  fd : ℤ
  protocol : ℤ
  deriving DecidableEq, Repr

/-- `PendingReply`; `len` is the length of `buf`. -/
structure PendingReply where
  fd : ℤ
  buf : Bytes
  off : ℕ
  deriving DecidableEq, Repr

/-- `Config`, with `force_emulation` set. -/
structure Config where
  fds : List NetlinkRouteFd
  pending : List PendingReply
  deriving DecidableEq, Repr

/-! ### The tables -/

/-- The first element that meets a condition is replaced, or a new one is put behind all. -/
def update {α : Type} (found : α → Bool) (change : α → α) (fresh : α) : List α → List α
  | [] => [change fresh]
  | x :: xs => if found x then change x :: xs else x :: update found change fresh xs

/-- `remember_fd`. -/
def Config.rememberFd (c : Config) (fd protocol : ℤ) : Config :=
  { c with fds := update (·.fd == fd) (fun e => { e with protocol := protocol }) ⟨fd, 0⟩ c.fds }

/-- `forget_fd`. -/
def Config.forgetFd (c : Config) (fd : ℤ) : Config :=
  match c.fds.findIdx? (·.fd == fd) with
  | some i => { c with fds := Slots.swapRemove c.fds i }
  | none => c

/-- `is_route_fd`. -/
def Config.isRouteFd (c : Config) (fd : ℤ) : Bool :=
  match c.fds.find? (·.fd == fd) with
  | some e => e.protocol == netlinkRoute
  | none => false

/-- `get_pending`, without `create`. -/
def Config.getPending (c : Config) (fd : ℤ) : Option PendingReply :=
  c.pending.find? (·.fd == fd)

/-- The entry that `get_pending` creates or finds is changed. -/
def Config.changePending (c : Config) (fd : ℤ) (change : PendingReply → PendingReply) : Config :=
  { c with pending := update (·.fd == fd) change ⟨fd, [], 0⟩ c.pending }

/-- `clear_pending`. -/
def PendingReply.clear (p : PendingReply) : PendingReply := { p with buf := [], off := 0 }

/-! ### Messages -/

/-- The header of a request. -/
structure Nlmsghdr where
  type : ℕ
  seq : ℕ
  pid : ℕ
  deriving DecidableEq, Repr

/-- A message of a reply. -/
structure Message where
  type : ℕ
  flags : ℕ
  seq : ℕ
  pid : ℕ
  payload : Bytes
  deriving DecidableEq, Repr

/-- The bytes of a number, the lowest first. -/
def littleEndian : ℕ → ℕ → Bytes
  | 0, _ => []
  | width + 1, n => UInt8.ofNat n :: littleEndian width (n / 256)

/-- `struct nlmsghdr`, with `nlmsg_len` the length of the whole message. -/
def Message.header (m : Message) : Bytes :=
  littleEndian 4 (16 + m.payload.length) ++ littleEndian 2 m.type ++ littleEndian 2 m.flags ++
    littleEndian 4 m.seq ++ littleEndian 4 m.pid

/-- A message: its header and its payload. -/
def Message.encode (m : Message) : Bytes := m.header ++ m.payload

/-- `NLMSG_ALIGN` of what is written so far. -/
def align (out : Bytes) : Bytes := out ++ List.replicate ((4 - out.length % 4) % 4) 0

/-- A reply: each message begins at the next aligned place. -/
def pack (messages : List Message) : Bytes :=
  messages.foldl (fun out m => align out ++ m.encode) []

/-- What the host tells: the payload of the message about each link and about each address, or
nothing where it fails. -/
structure Interfaces where
  links : Option (List Bytes)
  addresses : Option (List Bytes)
  deriving DecidableEq, Repr

/-- `build_link_reply` and `build_addr_reply`: a message for each interface, and `NLMSG_DONE`. -/
def buildReply (type : ℕ) (hdr : Nlmsghdr) (payloads : List Bytes) : List Message :=
  payloads.map (fun payload => ⟨type, 2, hdr.seq, hdr.pid, payload⟩) ++
    [⟨3, 0, hdr.seq, hdr.pid, []⟩]

/-- `build_reply_for_request`. -/
def buildReplyForRequest (hdr : Nlmsghdr) (host : Interfaces) : Option (List Message) :=
  if hdr.type = 18 then host.links.map (buildReply 16 hdr)
  else if hdr.type = 22 then host.addresses.map (buildReply 20 hdr)
  else none

/-! ### Calls -/

/-- A call of `sendto`: the header that is read from its buffer, if it can be, its length, and what
the host tells at its two stops. -/
structure Sendto where
  fd : ℤ
  header : Option Nlmsghdr
  bufLen : UInt64
  atEnter : Interfaces
  atExit : Interfaces
  hostResult : UInt64
  deriving DecidableEq, Repr

/-- A call of `recvfrom`: its buffer, and whether it can be written. -/
structure Recvfrom where
  fd : ℤ
  bufPtr : UInt64
  bufLen : UInt64
  writable : Bool
  deriving DecidableEq, Repr

/-- A call of `recvmsg`: the lengths of its buffers, if they can be read, and whether the first can
be written. -/
structure Recvmsg where
  fd : ℤ
  iov : Option (List UInt64)
  writable : Bool
  deriving DecidableEq, Repr

/-- How a call ends: by the host, or by the extension. -/
inductive Answer
  | host
  | eagain
  | sent
  | served (data : Bytes)
  deriving DecidableEq, Repr

/-- The host has refused: the result is `-EACCES` or `-EPERM`, read as an `int`. -/
def Refused (result : UInt64) : Prop :=
  result.toUInt32.toInt32.toInt = -13 ∨ result.toUInt32.toInt32.toInt = -1

instance (result : UInt64) : Decidable (Refused result) := inferInstanceAs (Decidable (_ ∨ _))

/-- A request is answered, by either stop of `sendto`: the entry is there even where there is no
reply, and a reply takes the place of what is in it. -/
def Config.answerRequest (c : Config) (fd : ℤ) (header : Option Nlmsghdr) (host : Interfaces) :
    Config × Option (List Message) :=
  if c.isRouteFd fd then
    match header with
    | none => (c, none)
    | some hdr =>
      match buildReplyForRequest hdr host with
      | none => (c.changePending fd id, none)
      | some reply =>
        (c.changePending fd fun p => { p.clear with buf := pack reply }, some reply)
  else (c, none)

/-- `handle_sendto_enter`. -/
def Config.handleSendtoEnter (c : Config) (e : Sendto) : Config × Option (List Message) :=
  c.answerRequest e.fd e.header e.atEnter

/-- `handle_sendto_exit`. -/
def Config.handleSendtoExit (c : Config) (e : Sendto) (result : UInt64) :
    Config × Option (List Message) :=
  if Refused result then c.answerRequest e.fd e.header e.atExit else (c, none)

/-- The first `size` bytes of what is left are served. -/
def Config.serve (c : Config) (p : PendingReply) (size : ℕ) (writable : Bool) : Config × Answer :=
  let rest := p.buf.drop p.off
  let toCopy := min rest.length size
  if !writable then (c, .host)
  else
    (c.changePending p.fd fun p =>
      if p.buf.length ≤ p.off + toCopy then p.clear else { p with off := p.off + toCopy },
      .served (rest.take toCopy))

/-- `serve_pending_recvfrom`. -/
def Config.servePendingRecvfrom (c : Config) (p : PendingReply) (e : Recvfrom) :
    Config × Answer :=
  if p.buf.length ≤ p.off then (c, .host)
  else if e.bufPtr = 0 ∨ e.bufLen = 0 then (c, .host)
  else c.serve p e.bufLen.toNat e.writable

/-- `serve_pending_recvmsg`: the first buffer alone. -/
def Config.servePendingRecvmsg (c : Config) (p : PendingReply) (e : Recvmsg) : Config × Answer :=
  if p.buf.length ≤ p.off then (c, .host)
  else
    match e.iov with
    | none | some [] => (c, .host)
    | some (iovLen :: _) =>
      if iovLen = 0 then (c, .host) else c.serve p iovLen.toNat e.writable

/-- A receive: served if there is an entry, `EAGAIN` if there is none on a route socket. -/
def Config.receive (c : Config) (fd : ℤ) (serve : PendingReply → Config × Answer) :
    Config × Answer :=
  match c.getPending fd with
  | some p => serve p
  | none => if c.isRouteFd fd then (c, .eagain) else (c, .host)

/-- `handle_close_enter`. -/
def Config.handleCloseEnter (c : Config) (fd : ℤ) : Config :=
  match c.getPending fd with
  | some _ => (c.changePending fd PendingReply.clear).forgetFd fd
  | none => c.forgetFd fd

/-- `handle_socket_exit`. -/
def Config.handleSocketExit (c : Config) (domain protocol result : ℤ) : Config :=
  if result < 0 then c
  else if domain = afNetlink then c.rememberFd result protocol
  else c

/-! ### Runs -/

/-- A call of the tracee; a socket comes with the descriptor or the error that the host gives. -/
inductive Event
  | socket (domain protocol result : ℤ)
  | close (fd : ℤ)
  | sendto (e : Sendto)
  | recvfrom (e : Recvfrom)
  | recvmsg (e : Recvmsg)
  deriving DecidableEq, Repr

/-- The tables, the socket behind each descriptor, by its domain and protocol, and the bytes of
replies that have been stored for it and not been served. -/
structure State where
  config : Config
  sockets : ℤ → Option (ℤ × ℤ)
  outstanding : ℤ → Bytes

/-- A call: the tables after it, how it ends, and the replies that it stores. -/
def Config.call (c : Config) : Event → Config × Answer × List (List Message)
  | .socket domain protocol result => (c.handleSocketExit domain protocol result, .host, [])
  | .close fd => (c.handleCloseEnter fd, .host, [])
  | .sendto e =>
    let (c, first) := c.handleSendtoEnter e
    let (c, second) := c.handleSendtoExit e (if first.isSome then e.bufLen else e.hostResult)
    (c, if first.isSome ∨ second.isSome then .sent else .host, first.toList ++ second.toList)
  | .recvfrom e =>
    let (c, answer) := c.receive e.fd fun p => c.servePendingRecvfrom p e
    (c, answer, [])
  | .recvmsg e =>
    let (c, answer) := c.receive e.fd fun p => c.servePendingRecvmsg p e
    (c, answer, [])

/-- The descriptor of a call. -/
def Event.fd : Event → ℤ
  | .socket _ _ result => result
  | .close fd => fd
  | .sendto e => e.fd
  | .recvfrom e => e.fd
  | .recvmsg e => e.fd

/-- How the call ends. -/
def State.answer (s : State) (e : Event) : Answer := (s.config.call e).2.1

/-- The sockets behind a call. -/
def State.socketsAfter (s : State) : Event → ℤ → Option (ℤ × ℤ)
  | .socket domain protocol result =>
    if result < 0 then s.sockets else Function.update s.sockets result (some (domain, protocol))
  | .close fd => Function.update s.sockets fd none
  | _ => s.sockets

/-- The bytes that are outstanding behind a call: nothing for a closed descriptor, else without
what was served and with what was stored. -/
def State.outstandingAfter (s : State) (e : Event) : ℤ → Bytes :=
  let (_, answer, stored) := s.config.call e
  let left := match answer with
    | .served data => (s.outstanding e.fd).drop data.length
    | _ => s.outstanding e.fd
  Function.update s.outstanding e.fd
    (match e with
      | .close _ => []
      | _ => left ++ stored.flatMap pack)

/-- One call. -/
def State.step (s : State) (e : Event) : State where
  config := (s.config.call e).1
  sockets := s.socketsAfter e
  outstanding := s.outstandingAfter e

/-- A tracee without sockets. -/
def State.initial : State := ⟨⟨[], []⟩, fun _ => none, fun _ => []⟩

end NeoProot.NetlinkRoute
