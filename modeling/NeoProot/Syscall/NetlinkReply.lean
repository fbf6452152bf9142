import NeoProot.Syscall.Netlink
import NeoProot.Tracee.Mem
import NeoProot.Lib.Layout
import NeoProot.Lib.Records

/-!
# The answers of a socket that stands for netlink

A request that is sent on a substitute is answered at once: the tracer puts messages about the
interfaces, the addresses or the routes of the host into a buffer, from which later calls
receive.

## Main definitions

* `NlMsgHdr`, `messages`, `attributes` — the formats of messages and of their attributes.
* `nlBuildLink`, `nlBuildAddr`, `nlBuildDone`, `nlBuildError` — the messages.
* `buildFakeNetlinkReply` — the answer to a request.
* `FakeNetlinkSocket.call` — the calls on the socket.
-/

namespace NeoProot.Netlink
open LittleEndian Mem

/-! ### Messages -/

/-- `struct nlmsghdr`. -/
structure NlMsgHdr where
  len : UInt32
  type : UInt16
  flags : UInt16
  seq : UInt32
  pid : UInt32
  deriving DecidableEq, Repr

namespace NlMsgHdr

/-- The widths of the fields. -/
def widths : List ℕ := [4, 2, 2, 4, 4]

/-- The bytes of a header. -/
def encode (h : NlMsgHdr) : List UInt8 :=
  encodeAll widths [h.len.toNat, h.type.toNat, h.flags.toNat, h.seq.toNat, h.pid.toNat]

/-- The header at the beginning of the bytes. -/
def decode (bytes : List UInt8) : NlMsgHdr :=
  let fields := decodeAll widths bytes
  ⟨.ofNat (fields.getD 0 0), .ofNat (fields.getD 1 0), .ofNat (fields.getD 2 0),
    .ofNat (fields.getD 3 0), .ofNat (fields.getD 4 0)⟩

end NlMsgHdr

/-- `NLMSG_HDRLEN`. -/
def nlmsgHdrlen : ℕ := 16

/-- `RTA_LENGTH(0)`. -/
def rtaHdrlen : ℕ := 4

theorem take_of_append {n : ℕ} {record rest : List UInt8} (h : n ≤ record.length) :
    (record ++ rest).take n = record.take n := List.take_append_of_le_length h

/-- Messages, with the macros `NLMSG_ALIGN`, `NLMSG_OK` and `NLMSG_NEXT`. -/
def messages : RecordFormat where
  header := nlmsgHdrlen
  align := 4
  lengthOf bytes := (NlMsgHdr.decode (bytes.take nlmsgHdrlen)).len.toNat
  header_pos := by decide
  align_pos := by decide
  lengthOf_append _ _ h := by rw [take_of_append h]

/-- Attributes, with the macro `RTA_ALIGN`. -/
def attributes : RecordFormat where
  header := rtaHdrlen
  align := 4
  lengthOf bytes := (decodeAll [2, 2] (bytes.take rtaHdrlen)).getD 0 0
  header_pos := by decide
  align_pos := by decide
  lengthOf_append _ _ h := by rw [take_of_append h]

/-- The header of a message. -/
def headerOf (bytes : List UInt8) : NlMsgHdr := .decode (bytes.take nlmsgHdrlen)

/-- The type of an attribute. -/
def rtaType (bytes : List UInt8) : ℕ := (decodeAll [2, 2] (bytes.take rtaHdrlen)).getD 1 0

/-- A message with its header in front. -/
def message (type flags : UInt16) (seq pid : UInt32) (body : List UInt8) : List UInt8 :=
  (NlMsgHdr.mk (.ofNat (nlmsgHdrlen + body.length)) type flags seq pid).encode ++ body

/-! ### Numbers -/

/-- `NLMSG_ERROR`. -/
def nlmsgError : UInt16 := 2
/-- `NLMSG_DONE`. -/
def nlmsgDone : UInt16 := 3
/-- `RTM_NEWLINK`. -/
def rtmNewlink : UInt16 := 16
/-- `RTM_GETLINK`. -/
def rtmGetlink : UInt16 := 18
/-- `RTM_NEWADDR`. -/
def rtmNewaddr : UInt16 := 20
/-- `RTM_GETADDR`. -/
def rtmGetaddr : UInt16 := 22
/-- `RTM_GETROUTE`. -/
def rtmGetroute : UInt16 := 26
/-- `NLM_F_MULTI`. -/
def nlmFMulti : UInt16 := 2
/-- `NLM_F_DUMP`. -/
def nlmFDump : UInt16 := 0x300
/-- `IFLA_IFNAME`. -/
def iflaIfname : UInt16 := 3
/-- `IFF_LOOPBACK`. -/
def iffLoopback : UInt32 := 8
/-- `IFF_RUNNING`. -/
def iffRunning : UInt32 := 0x40
/-- `ARPHRD_LOOPBACK`. -/
def arphrdLoopback : UInt16 := 772
/-- `IFNAMSIZ`. -/
def ifnamsiz : ℕ := 16
/-- `MAX_FAKE_NETLINK_REPLY`. -/
def maxFakeNetlinkReply : ℕ := 8192

/-! ### The messages of an answer -/

/-- `RTA_SPACE`. -/
def rtaSpace (dlen : UInt16) : ℕ := attributes.aligned (dlen.toNat + rtaHdrlen)

/-- `struct rtattr` and its data. -/
def rtattr (type : UInt16) (data : List UInt8) (dlen : UInt16) : List UInt8 :=
  encodeAll [2, 2] [dlen.toNat + rtaHdrlen, type.toNat] ++ data.take dlen.toNat

/-- `nl_add_attr`, behind what has been written from `start` on. -/
def nlAddAttr (max start : ℕ) (type : UInt16) (data : List UInt8) (dlen : UInt16)
    (written : List UInt8) : List UInt8 :=
  if max < start + written.length + rtaSpace dlen then written
  else written ++ attributes.padded (rtattr type data dlen)

/-- A string with its NUL, as an attribute. -/
def nlAddString (max start : ℕ) (type : UInt16) (s : List UInt8) (written : List UInt8) :
    List UInt8 :=
  nlAddAttr max start type (s ++ [0]) (.ofNat (s.length + 1)) written

/-- A link, as `nl_build_link` gets it. -/
structure Link where
  ifindex : UInt32
  iftype : UInt16
  ifflags : UInt32
  mtu : UInt32
  name : List UInt8
  hwaddr : List UInt8
  hwaddr_le : hwaddr.length ≤ 8
  deriving DecidableEq, Repr

/-- `struct ifinfomsg`. -/
def Link.ifinfomsg (l : Link) : List UInt8 :=
  let lowerUp : UInt32 := if l.ifflags &&& iffRunning ≠ 0 then 0x10000 else 0
  encodeAll [1, 1, 2, 4, 4, 4] [0, 0, l.iftype.toNat, l.ifindex.toNat,
    (l.ifflags ||| lowerUp).toNat, 0]

/-- The attributes of a link, behind its `struct ifinfomsg`. -/
def Link.attributes (max start : ℕ) (l : Link) : List UInt8 :=
  let operstate : UInt8 := if l.ifflags &&& 1 ≠ 0 then 6 else 2
  let brd : UInt8 := if l.iftype = arphrdLoopback then 0x00 else 0xff
  let written := nlAddString max start iflaIfname l.name []
  let written := nlAddAttr max start 4 (encode 4 l.mtu.toNat) 4 written
  let written := nlAddAttr max start 13 (encode 4 1000) 4 written
  let written := nlAddAttr max start 16 [operstate] 1 written
  if 0 < l.hwaddr.length then
    let written := nlAddAttr max start 1 l.hwaddr (.ofNat l.hwaddr.length) written
    nlAddAttr max start 2 (List.replicate 8 brd) (.ofNat l.hwaddr.length) written
  else written

/-- `nl_build_link`. -/
def nlBuildLink (max : ℕ) (seq pid : UInt32) (nlflags : UInt16) (l : Link) (out : List UInt8) :
    List UInt8 :=
  let front := nlmsgHdrlen + l.ifinfomsg.length
  if max < out.length + front then out
  else
    out ++ messages.padded (message rtmNewlink nlflags seq pid
      (l.ifinfomsg ++ l.attributes max (out.length + front)))

/-- An address, as `nl_build_addr` gets it. -/
structure Addr where
  ipv6 : Bool
  ifindex : UInt32
  addr : List UInt8
  addr_length : addr.length = if ipv6 then 16 else 4
  prefixlen : UInt8
  scope : UInt8
  label : Option (List UInt8)
  deriving DecidableEq, Repr

/-- `AF_INET6` or `AF_INET`. -/
def familyOf (ipv6 : Bool) : UInt8 := if ipv6 then 10 else 2

/-- `struct ifaddrmsg`. -/
def Addr.ifaddrmsg (a : Addr) : List UInt8 :=
  encodeAll [1, 1, 1, 1, 4] [(familyOf a.ipv6).toNat, a.prefixlen.toNat, 0x80, a.scope.toNat,
    a.ifindex.toNat]

/-- The attributes of an address, behind its `struct ifaddrmsg`. -/
def Addr.attributes (max start : ℕ) (a : Addr) : List UInt8 :=
  let written := nlAddAttr max start 1 a.addr (.ofNat a.addr.length) []
  let written := nlAddAttr max start 2 a.addr (.ofNat a.addr.length) written
  match a.label with
  | none => written
  | some label => if a.ipv6 then written else nlAddString max start 3 label written

/-- `nl_build_addr`. -/
def nlBuildAddr (max : ℕ) (seq pid : UInt32) (nlflags : UInt16) (a : Addr) (out : List UInt8) :
    List UInt8 :=
  let front := nlmsgHdrlen + a.ifaddrmsg.length
  if max < out.length + front then out
  else
    out ++ messages.padded (message rtmNewaddr nlflags seq pid
      (a.ifaddrmsg ++ a.attributes max (out.length + front)))

/-- The body of a message without attributes, if there is room for it. -/
def nlBuildPlain (max : ℕ) (type flags : UInt16) (seq pid : UInt32) (body out : List UInt8) :
    List UInt8 :=
  if max < out.length + messages.aligned (nlmsgHdrlen + body.length) then out
  else out ++ messages.padded (message type flags seq pid body)

/-- `nl_build_done`. -/
def nlBuildDone (max : ℕ) (seq pid : UInt32) (out : List UInt8) : List UInt8 :=
  nlBuildPlain max nlmsgDone nlmFMulti seq pid (encode 4 0) out

/-- `nl_build_error`, with the bits of its number. -/
def nlBuildError (max : ℕ) (seq pid : UInt32) (error : UInt32) (out : List UInt8) : List UInt8 :=
  nlBuildPlain max nlmsgError 0 seq pid (encode 4 error.toNat ++ List.replicate 16 0) out

/-! ### The request -/

/-- The bytes of a request, at least a header. -/
structure Request where
  bytes : List UInt8
  long : nlmsgHdrlen ≤ bytes.length

namespace Request

variable (req : Request)

/-- The header. -/
def header : NlMsgHdr := headerOf req.bytes

/-- `(flags & NLM_F_DUMP) == NLM_F_DUMP`. -/
def dump : Bool := req.header.flags &&& nlmFDump = nlmFDump

/-- The byte behind the header. -/
def family : UInt8 := req.bytes.getD nlmsgHdrlen 0

/-- The interface of a `struct ifinfomsg`, and the names in the attributes behind it.
There are none if the request is short. -/
def linkNames : Option (UInt32 × List (List UInt8)) :=
  if req.bytes.length < nlmsgHdrlen + 16 then none
  else
    some (.ofNat (decode ((req.bytes.drop 20).take 4)),
      (((attributes.unpack (req.bytes.drop 32)).filter fun a => rtaType a = iflaIfname.toNat).map
        fun a => ((a.drop rtaHdrlen).take (ifnamsiz - 1)).takeWhile (· ≠ 0)))

/-- `nl_request_is_loopback`. -/
def isLoopback : Bool :=
  match req.linkNames with
  | none => true
  | some (ifindex, names) =>
    match names.getLast? with
    | some name => name = [108, 111]
    | none => ifindex = 0 || ifindex = 1

/-- `nl_request_link_target`. -/
def linkTarget : UInt32 × List UInt8 :=
  match req.linkNames with
  | none => (0, [])
  | some (ifindex, names) => (ifindex, names.getLast?.getD [])

end Request

/-! ### The host -/

/-- An address of an interface, with its mask. -/
inductive SockAddr
  | inet (addr : Vector UInt8 4) (netmask : Option (Vector UInt8 4))
  | inet6 (addr : Vector UInt8 16) (netmask : Option (Vector UInt8 16))
  | packet (ifindex : UInt32) (hatype : UInt16) (halen : UInt8) (addr : Vector UInt8 8)
  | other
  deriving DecidableEq, Repr

/-- `struct ifaddrs`. -/
structure IfAddrs where
  name : Option (List UInt8)
  flags : UInt32
  addr : Option SockAddr
  deriving DecidableEq, Repr

/-- What one `recv` gets of a dump.  The kernel pads its messages. -/
structure Datagram where
  bytes : List UInt8
  nonempty : bytes ≠ []
  aligned : bytes.length % 4 = 0
  deriving DecidableEq, Repr

/-- What the tracer learns from the host. -/
structure NetHost where
  /-- `getifaddrs`. -/
  interfaces : Option (List IfAddrs)
  /-- `if_nametoindex`. -/
  ifNametoindex : List UInt8 → UInt32
  /-- There is a socket for the following two. -/
  socket : Bool
  /-- `SIOCGIFMTU`. -/
  mtu : List UInt8 → Option UInt32
  /-- `SIOCGIFHWADDR`. -/
  hwaddr : List UInt8 → Option (UInt16 × Vector UInt8 6)
  /-- What a socket receives that has asked for the routes. -/
  routes : UInt8 → UInt32 → Option (List Datagram)

/-- The link of an interface. -/
def NetHost.link (host : NetHost) (ifa : IfAddrs) (name : List UInt8) : Link :=
  let loopback := ifa.flags &&& iffLoopback ≠ 0
  let ifindex := host.ifNametoindex name
  let iftype : UInt16 := if loopback then arphrdLoopback else 1
  let mtu : UInt32 := if loopback then 65536 else 1500
  let name' := name.take (ifnamsiz - 1)
  let mtu := if host.socket then (host.mtu name').getD mtu else mtu
  let byIoctl (ifindex : UInt32) (iftype : UInt16) : Link :=
    match (if host.socket then host.hwaddr name' else none) with
    | some (family, hwaddr) => ⟨ifindex, family, ifa.flags, mtu, name, hwaddr.toList, by simp⟩
    | none => ⟨ifindex, iftype, ifa.flags, mtu, name, [], by simp⟩
  match ifa.addr with
  | some (.packet sllIfindex hatype halen addr) =>
    let ifindex := if sllIfindex ≠ 0 then sllIfindex else ifindex
    if h : 0 < halen.toNat ∧ halen.toNat ≤ 8 then
      ⟨ifindex, hatype, ifa.flags, mtu, name, addr.toList.take halen.toNat, by simp⟩
    else byIoctl ifindex hatype
  | _ => byIoctl ifindex iftype

/-- A request for one link is for this one. -/
def wanted (target : UInt32 × List UInt8) (name : List UInt8) (ifindex : UInt32) : Bool :=
  if target.2 ≠ [] then target.2 = name
  -- `want_index` is signed.
  else if 0 < target.1.toNat ∧ target.1.toNat < 2 ^ 31 then ifindex = target.1
  else true

/-- `dup`: the name has been seen. -/
def dup (seen : List (List UInt8)) (name : List UInt8) : Bool := name.take ifnamsiz ∈ seen

/-- `build_host_links`, from the names that were seen, the messages and their number.  `target`
is `none` for a dump. -/
def buildHostLinks (host : NetHost) (max : ℕ) (seq pid : UInt32)
    (target : Option (UInt32 × List UInt8)) :
    List IfAddrs → List (List UInt8) → List UInt8 → ℕ → List UInt8 × ℕ
  | [], _, out, built => (out, built)
  | ifa :: rest, seen, out, built =>
    match ifa.name with
    | none => buildHostLinks host max seq pid target rest seen out built
    | some name =>
      if dup seen name then
        buildHostLinks host max seq pid target rest seen out built
      else
        let seen := if seen.length < 64 then seen ++ [name.take (ifnamsiz - 1)] else seen
        let link := host.link ifa name
        if target.any fun target => !wanted target name link.ifindex then
          buildHostLinks host max seq pid target rest seen out built
        else if max < out.length + 256 then (out, built)
        else
          let nlflags := if target.isNone then nlmFMulti else 0
          let out := nlBuildLink max seq pid nlflags link out
          if target.isNone then
            buildHostLinks host max seq pid target rest seen out (built + 1)
          else (out, built + 1)

/-- `nl_prefixlen`. -/
def nlPrefixlen : List UInt8 → UInt8
  | [] => 0
  | b :: mask =>
    if b = 0xff then 8 + nlPrefixlen mask
    else .ofNat ((List.range 8).takeWhile fun i => b.toNat.testBit (7 - i)).length

/-- `nl_addr_scope`. -/
def nlAddrScope (ipv6 : Bool) (addr : List UInt8) : UInt8 :=
  let b₀ := addr.getD 0 0
  let b₁ := addr.getD 1 0
  if ipv6 then
    if addr = List.replicate 15 0 ++ [1] then 254
    else if b₀ = 0xfe ∧ b₁ &&& 0xc0 = 0x80 then 253
    else 0
  else
    if b₀ = 127 then 254
    else if b₀ = 169 ∧ b₁ = 254 then 253
    else 0

/-- The address of an interface, if it is of a family that is answered. -/
def NetHost.address (host : NetHost) (ifa : IfAddrs) : Option Addr :=
  match ifa.name, ifa.addr with
  | some name, some (.inet addr netmask) =>
    some ⟨false, host.ifNametoindex name, addr.toList, by simp,
      (netmask.map fun mask => nlPrefixlen mask.toList).getD 32, nlAddrScope false addr.toList,
      some name⟩
  | some name, some (.inet6 addr netmask) =>
    some ⟨true, host.ifNametoindex name, addr.toList, by simp,
      (netmask.map fun mask => nlPrefixlen mask.toList).getD 128, nlAddrScope true addr.toList,
      some name⟩
  | _, _ => none

/-- `build_host_addrs`, from the messages and their number. -/
def buildHostAddrs (host : NetHost) (max : ℕ) (seq pid : UInt32) (wantFamily : Option Bool)
    (dump : Bool) : List IfAddrs → List UInt8 → ℕ → List UInt8 × ℕ
  | [], out, built => (out, built)
  | ifa :: rest, out, built =>
    match host.address ifa with
    | none => buildHostAddrs host max seq pid wantFamily dump rest out built
    | some a =>
      if wantFamily.any fun ipv6 => a.ipv6 != ipv6 then
        buildHostAddrs host max seq pid wantFamily dump rest out built
      else if max < out.length + 256 then (out, built)
      else
        let nlflags := if dump then nlmFMulti else 0
        buildHostAddrs host max seq pid wantFamily dump rest
          (nlBuildAddr max seq pid nlflags a out) (built + 1)

theorem length_loopback_hwaddr : (List.replicate 6 (0 : UInt8)).length ≤ 8 := by decide

theorem length_loopback_addr₆ :
    (List.replicate 15 (0 : UInt8) ++ [1]).length = if true then 16 else 4 := by decide

theorem length_loopback_addr₄ :
    ([127, 0, 0, 1] : List UInt8).length = if false then 16 else 4 := by decide

/-- `nl_build_loopback_link`. -/
def nlBuildLoopbackLink (max : ℕ) (seq pid : UInt32) (nlflags : UInt16) (out : List UInt8) :
    List UInt8 :=
  nlBuildLink max seq pid nlflags
    ⟨1, arphrdLoopback, 1 ||| iffLoopback ||| iffRunning, 65536, [108, 111], List.replicate 6 0,
      length_loopback_hwaddr⟩ out

/-- `nl_build_loopback_addr`. -/
def nlBuildLoopbackAddr (max : ℕ) (seq pid : UInt32) (ipv6 : Bool) (nlflags : UInt16)
    (out : List UInt8) : List UInt8 :=
  nlBuildAddr max seq pid nlflags
    (if ipv6 then ⟨true, 1, List.replicate 15 0 ++ [1], length_loopback_addr₆, 128, 254, none⟩
    else ⟨false, 1, [127, 0, 0, 1], length_loopback_addr₄, 8, 254, some [108, 111]⟩) out

/-- A message of the kernel, as it is passed on. -/
def relayed (seq pid : UInt32) (record : List UInt8) : List UInt8 :=
  { headerOf record with seq := seq, pid := pid }.encode ++ record.drop nlmsgHdrlen

/-- The messages of one datagram: what is written, whether that was all, and whether the last
message was `NLMSG_DONE`. -/
def relayMessages (max : ℕ) (seq pid : UInt32) :
    List (List UInt8) → List UInt8 → List UInt8 × Bool × Bool
  | [], out => (out, false, false)
  | h :: rest, out =>
    if max < out.length + messages.aligned h.length + 64 then (out, true, false)
    else
      let out := out ++ messages.padded (relayed seq pid h)
      if (headerOf h).type = nlmsgDone then (out, true, true)
      else relayMessages max seq pid rest out

/-- The datagrams, one after the other. -/
def relayRounds (max : ℕ) (seq pid : UInt32) : List Datagram → List UInt8 → List UInt8 × Bool
  | [], out => (out, false)
  | d :: rest, out =>
    match relayMessages max seq pid (messages.unpack d.bytes) out with
    | (out, true, sawDone) => (out, sawDone)
    | (out, false, _) => relayRounds max seq pid rest out

/-- `relay_route_dump`. -/
def relayRouteDump (host : NetHost) (max : ℕ) (seq pid : UInt32) (family : UInt8) : List UInt8 :=
  match host.routes family seq with
  | none => []
  | some datagrams =>
    match relayRounds max seq pid (datagrams.take 64) [] with
    | ([], _) => []
    | (out, true) => out
    | (out, false) => nlBuildDone max seq pid out

/-! ### The answer -/

/-- The messages about links. -/
def replyLinks (host : NetHost) (max : ℕ) (req : Request) (pid : UInt32) : List UInt8 :=
  let seq := req.header.seq
  let target := if req.dump then none else some req.linkTarget
  let (out, n) := (host.interfaces.map fun ifas =>
    buildHostLinks host max seq pid target ifas [] [] 0).getD ([], 0)
  let out :=
    if n = 0 then
      if req.dump then nlBuildLoopbackLink max seq pid nlmFMulti []
      else if req.isLoopback then nlBuildLoopbackLink max seq pid 0 []
      -- `-ENODEV`
      else nlBuildError max seq pid (-19) []
    else out
  if req.dump then nlBuildDone max seq pid out else out

/-- The messages about addresses. -/
def replyAddrs (host : NetHost) (max : ℕ) (req : Request) (pid : UInt32) : List UInt8 :=
  let seq := req.header.seq
  let wantFamily := if req.family = 2 then some false else if req.family = 10 then some true
    else none
  let (out, n) := (host.interfaces.map fun ifas =>
    buildHostAddrs host max seq pid wantFamily req.dump ifas [] 0).getD ([], 0)
  let nlflags := if req.dump then nlmFMulti else 0
  let out :=
    if n = 0 then
      let out := if req.family = 0 ∨ req.family = 2 then
        nlBuildLoopbackAddr max seq pid false nlflags [] else []
      if req.family = 0 ∨ req.family = 10 then nlBuildLoopbackAddr max seq pid true nlflags out
      else out
    else out
  if req.dump then nlBuildDone max seq pid out else out

/-- The messages for a request. -/
def replyTo (host : NetHost) (max : ℕ) (req : Request) (pid : UInt32) : List UInt8 :=
  let seq := req.header.seq
  if req.header.type = rtmGetlink then replyLinks host max req pid
  else if req.header.type = rtmGetaddr then replyAddrs host max req pid
  else if req.header.type = rtmGetroute then
    if req.dump then
      match relayRouteDump host max seq pid req.family with
      | [] => nlBuildDone max seq pid []
      | out => out
    else nlBuildError max seq pid 0 []
  else if req.dump then nlBuildDone max seq pid []
  else nlBuildError max seq pid 0 []

/-- What is read of a request: at most 256 bytes. -/
def readRequest (access : Access) (m : TraceeMemory) (bufAddr bufLen : ℕ) : Option Request :=
  if bufAddr = 0 ∨ bufLen < nlmsgHdrlen then none
  else
    match readData access m bufAddr (min bufLen 256) with
    | none => none
    | some bytes => if h : nlmsgHdrlen ≤ bytes.length then some ⟨bytes, h⟩ else none

/-- `build_fake_netlink_reply`: the answer. -/
def buildFakeNetlinkReply (host : NetHost) (pid : UInt32) (req : Option Request) : List UInt8 :=
  let max := maxFakeNetlinkReply
  let out := (req.map fun req => replyTo host max req pid).getD []
  -- `-EINVAL`
  if out = [] then nlBuildError max ((req.map (·.header.seq)).getD 0) pid (-22) [] else out

/-! ### The calls -/

/-- `fake_netlink_datagram_len`. -/
def fakeNetlinkDatagramLen (reply : List UInt8) : ℕ :=
  let off := messages.walkUntil (fun bytes => (headerOf bytes).type = nlmsgDone) reply
  if off = 0 ∨ reply.length < off then reply.length else off

namespace FakeNetlinkSocket

/-- The socket with a new answer. -/
def answered (sock : FakeNetlinkSocket) (out : List UInt8) : FakeNetlinkSocket :=
  { sock with reply := some out, replyLen := out.length, replyOff := 0 }

/-- `pending_fake_netlink_datagram`. -/
def pending (sock : FakeNetlinkSocket) : List UInt8 :=
  if sock.replyLen = 0 then []
  else
    let rest := ((sock.reply.getD []).take sock.replyLen).drop sock.replyOff
    rest.take (fakeNetlinkDatagramLen rest)

/-- `consume_fake_netlink_datagram`. -/
def consume (sock : FakeNetlinkSocket) (datagram : ℕ) : FakeNetlinkSocket :=
  if sock.replyLen ≤ sock.replyOff + datagram then { sock with replyLen := 0, replyOff := 0 }
  else { sock with replyOff := sock.replyOff + datagram }

end FakeNetlinkSocket

/-- `peek_word`, and whether it succeeded.  Where it does not its value is `-1`. -/
def peekWord (m : TraceeMemory) (a : ℕ) : ℕ × Bool :=
  match peekData m a with
  | some word => (decode word, true)
  | none => (2 ^ 64 - 1, false)

/-- `peek_uint32`. -/
def peekUint32 (access : Access) (m : TraceeMemory) (a : ℕ) : Option ℕ :=
  (readData access m a 4).map decode

/-- `poke_uint32`. -/
def pokeUint32 (access : Access) (m : TraceeMemory) (a value : ℕ) : TraceeMemory :=
  (writeData access m a (encode 4 value)).1

/-- An entry of an array of `struct iovec`. -/
def peekIovec (m : TraceeMemory) (iovPtr : ℕ) : ℕ × ℕ :=
  let base := peekWord m iovPtr
  (base.1, if base.2 then (peekWord m (iovPtr + wordSize)).1 else 0)

/-- `msghdr_first_iovec`. -/
def msghdrFirstIovec (m : TraceeMemory) (msghdrAddr : ℕ) : Option (ℕ × ℕ) :=
  if msghdrAddr = 0 then none
  else
    let iovPtr := peekWord m (msghdrAddr + 2 * wordSize)
    let iovCount := if iovPtr.2 then (peekWord m (msghdrAddr + 3 * wordSize)).1 else 0
    if iovPtr.1 = 0 ∨ iovCount = 0 then none else some (peekIovec m iovPtr.1)

/-- `scatter_fake_netlink_reply`: the memory, and how much was written.  Each entry is read
when its turn comes. -/
def scatterFakeNetlinkReply (access : Access) :
    ℕ → TraceeMemory → ℕ → List UInt8 → TraceeMemory × ℕ
  | 0, m, _, _ => (m, 0)
  | iovCount + 1, m, iovPtr, reply =>
    if reply = [] then (m, 0)
    else
      let iov := peekIovec m iovPtr
      let chunk := min reply.length iov.2
      let (m, ok) :=
        if iov.1 ≠ 0 ∧ 0 < chunk then writeData access m iov.1 (reply.take chunk) else (m, true)
      if ok then
        let (m, done) := scatterFakeNetlinkReply access iovCount m (iovPtr + 2 * wordSize)
          (reply.drop chunk)
        (m, chunk + done)
      else (m, 0)

/-- `struct sockaddr_nl`: `AF_NETLINK`, and no address. -/
def sockaddrNl : List UInt8 := encodeAll [2, 2, 4, 4] [16, 0, 0, 0]

/-- `write_fake_netlink_sockname`, for the address 0.  The calls do not look at its result. -/
def writeFakeNetlinkSockname (access : Access) (m : TraceeMemory) (addrPtr sizePtr : ℕ) :
    TraceeMemory :=
  match peekUint32 access m sizePtr with
  | none => m
  | some inSize =>
    let (m, ok) :=
      if addrPtr ≠ 0 ∧ 0 < inSize then writeData access m addrPtr (sockaddrNl.take inSize)
      else (m, true)
    if ok then pokeUint32 access m sizePtr sockaddrNl.length else m

/-- What `recvfrom` writes of a datagram, and its result. -/
def deliverFrom (access : Access) (m : TraceeMemory) (buf len : ℕ) (trunc : Bool)
    (addrPtr sizePtr : ℕ) (datagram : List UInt8) : TraceeMemory × ℕ :=
  let written := datagram.take len
  let (m, ok) := if buf ≠ 0 ∧ written ≠ [] then writeData access m buf written else (m, true)
  let copied := if buf ≠ 0 ∧ ok then written.length else 0
  let m :=
    if addrPtr ≠ 0 ∧ sizePtr ≠ 0 then writeFakeNetlinkSockname access m addrPtr sizePtr else m
  (m, if trunc then datagram.length else copied)

/-- `msg_name` and `msg_namelen`, behind a datagram. -/
def writeMsgName (access : Access) (m : TraceeMemory) (msghdrAddr msgName : ℕ) : TraceeMemory :=
  match peekUint32 access m (msghdrAddr + wordSize) with
  | none => m
  | some inNamelen =>
    if 0 < inNamelen then
      let m := (writeData access m msgName (sockaddrNl.take inNamelen)).1
      pokeUint32 access m (msghdrAddr + wordSize) sockaddrNl.length
    else m

/-- `MSG_TRUNC`. -/
def msgTrunc : ℕ := 0x20

/-- What `recvmsg` writes of a datagram, and its result. -/
def deliverMsg (access : Access) (m : TraceeMemory) (msghdrAddr : ℕ) (trunc : Bool)
    (datagram : List UInt8) : TraceeMemory × ℕ :=
  let field (i : ℕ) : ℕ :=
    if msghdrAddr ≠ 0 ∧ (peekWord m (msghdrAddr + i * wordSize)).2 then
      (peekWord m (msghdrAddr + i * wordSize)).1
    else 0
  let msgName := field 0
  let (m, scattered) :=
    if field 2 ≠ 0 ∧ 0 < field 3 then scatterFakeNetlinkReply access (field 3) m (field 2) datagram
    else (m, 0)
  let m :=
    if msgName ≠ 0 ∧ msghdrAddr ≠ 0 then writeMsgName access m msghdrAddr msgName else m
  let m :=
    if msghdrAddr ≠ 0 then
      pokeUint32 access m (msghdrAddr + 6 * wordSize)
        (if scattered < datagram.length then msgTrunc else 0)
    else m
  (m, if trunc then datagram.length else scattered)

/-- The calls on the socket, with the registers that the tracer looks at; of the flags it looks
at `MSG_PEEK` and `MSG_TRUNC`. -/
inductive SocketCall
  | sendto (buf len : ℕ)
  | sendmsg (msghdrAddr : ℕ)
  | recvfrom (buf len : ℕ) (peek trunc : Bool) (addrPtr sizePtr : ℕ)
  | recvmsg (msghdrAddr : ℕ) (peek trunc : Bool)
  deriving DecidableEq, Repr

/-- The result of a call, if the tracer has answered it. -/
structure Answer where
  socket : FakeNetlinkSocket
  memory : TraceeMemory
  result : Option ℕ

/-- The entry of a call on the socket. -/
def FakeNetlinkSocket.call (sock : FakeNetlinkSocket) (host : NetHost) (pid : UInt32)
    (access : Access) (m : TraceeMemory) : SocketCall → Answer
  | .sendto buf len =>
    ⟨sock.answered (buildFakeNetlinkReply host pid (readRequest access m buf len)), m, some len⟩
  | .sendmsg msghdrAddr =>
    match msghdrFirstIovec m msghdrAddr with
    | none => ⟨sock, m, some 0⟩
    | some (base, len) =>
      ⟨sock.answered (buildFakeNetlinkReply host pid (readRequest access m base len)), m, some len⟩
  | .recvfrom buf len peek trunc addrPtr sizePtr =>
    let datagram := sock.pending
    if datagram = [] then ⟨sock, m, none⟩
    else
      let (m, result) := deliverFrom access m buf len trunc addrPtr sizePtr datagram
      ⟨if peek then sock else sock.consume datagram.length, m, some result⟩
  | .recvmsg msghdrAddr peek trunc =>
    let datagram := sock.pending
    if datagram = [] then ⟨sock, m, none⟩
    else
      let (m, result) := deliverMsg access m msghdrAddr trunc datagram
      ⟨if peek then sock else sock.consume datagram.length, m, some result⟩

end NeoProot.Netlink
