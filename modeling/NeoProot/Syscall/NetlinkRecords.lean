import NeoProot.Syscall.NetlinkReply

/-!
# What the messages of an answer say

An answer is the messages of some items: the links or the addresses of the host, the messages of
its kernel, an error, the end of a dump.

## Main definitions

* `Item`, `Item.bytes` — what a message says, and the message with all its attributes.
* `nlBuildLink_eq`, `nlBuildAddr_eq` — with the room that is kept for a message, no attribute of
  it is left out.
* `isRecord_bytes`, `headerOf_bytes`, `unpack_attributes` — what a receiver finds.
-/

namespace NeoProot.Netlink
open LittleEndian

variable {data out : List UInt8} {max : ℕ} {as : List (UInt16 × List UInt8)} {l : Link} {a : Addr}
  {pid seq : UInt32}

/-! ### Attributes -/

/-- The bytes of attributes, from their types and their data. -/
def attrBytes (as : List (UInt16 × List UInt8)) : List UInt8 :=
  attributes.pack (as.map fun a => rtattr a.1 a.2 (.ofNat a.2.length))

theorem aligned_attributes (n : ℕ) : attributes.aligned n = (n + 3) / 4 * 4 := rfl

theorem aligned_messages (n : ℕ) : messages.aligned n = (n + 3) / 4 * 4 := rfl

theorem toNat_length (h : data.length < 1024) : (UInt16.ofNat data.length).toNat = data.length :=
  UInt16.toNat_ofNat_of_lt' (by simp only [UInt16.size]; omega)

theorem length_rtattr (type : UInt16) (h : data.length < 1024) :
    (rtattr type data (.ofNat data.length)).length = 4 + data.length := by
  rw [rtattr, List.length_append, length_encodeAll, toNat_length h, List.take_length]
  rfl

/-- What `nlAddAttr` reads of the data. -/
theorem nlAddAttr_take (max start : ℕ) (type : UInt16) (data : List UInt8) (dlen : UInt16)
    (written : List UInt8) :
    nlAddAttr max start type (data.take dlen.toNat) dlen written =
      nlAddAttr max start type data dlen written := by
  simp only [nlAddAttr, rtattr, List.take_take, Nat.min_self]

/-- With the room for it, an attribute is written. -/
theorem nlAddAttr_eq {start : ℕ} {type : UInt16} (hdata : data.length < 1024)
    (hroom : start + (attrBytes (as ++ [(type, data)])).length ≤ max) :
    nlAddAttr max start type data (.ofNat data.length) (attrBytes as) =
      attrBytes (as ++ [(type, data)]) := by
  have hsplit : attrBytes (as ++ [(type, data)]) =
      attrBytes as ++ attributes.padded (rtattr type data (.ofNat data.length)) := by
    simp only [attrBytes, List.map_append, RecordFormat.pack_append, List.map_cons, List.map_nil,
      RecordFormat.pack_singleton]
  rw [hsplit] at hroom ⊢
  rw [List.length_append, RecordFormat.length_padded, length_rtattr type hdata] at hroom
  have hspace : rtaSpace (.ofNat data.length) = attributes.aligned (4 + data.length) := by
    rw [rtaSpace, toNat_length hdata, Nat.add_comm]
    rfl
  rw [nlAddAttr, hspace, if_neg (by omega)]

theorem length_attrBytes_cons (type : UInt16) (as : List (UInt16 × List UInt8))
    (h : data.length < 1024) :
    (attrBytes ((type, data) :: as)).length =
      (data.length + 7) / 4 * 4 + (attrBytes as).length := by
  rw [attrBytes, List.map_cons, RecordFormat.pack_cons, List.length_append,
    RecordFormat.length_padded, length_rtattr type h, aligned_attributes, attrBytes]
  congr 3
  omega

/-- Attributes are records. -/
theorem isRecord_rtattr (type : UInt16) (h : data.length < 1024) :
    attributes.IsRecord (rtattr type data (.ofNat data.length)) := by
  have hfits : Fits [2, 2] [data.length + rtaHdrlen, type.toNat] := by
    have htype := type.toNat_lt
    refine .cons ?_ (.cons ?_ .nil)
    · rw [rtaHdrlen]
      omega
    · omega
  constructor
  · rw [length_rtattr type h]
    exact Nat.le_add_right 4 _
  · have hlength : (encodeAll [2, 2] [data.length + rtaHdrlen, type.toNat]).length = 4 :=
      length_encodeAll _ _
    have hread := decodeAll_encodeAll hfits []
    rw [List.append_nil] at hread
    rw [length_rtattr type h, rtattr, toNat_length h]
    change (decodeAll [2, 2] ((_ ++ _ : List UInt8).take 4)).getD 0 0 = _
    rw [List.take_left' hlength, hread]
    exact Nat.add_comm _ _

/-- A receiver finds the attributes. -/
theorem unpack_attrBytes (h : ∀ a ∈ as, a.2.length < 1024) :
    attributes.unpack (attrBytes as) =
      as.map fun a => rtattr a.1 a.2 (.ofNat a.2.length) := by
  apply RecordFormat.unpack_pack
  intro r hr
  obtain ⟨a, ha, rfl⟩ := List.mem_map.1 hr
  exact isRecord_rtattr a.1 (h a ha)

/-! ### Messages -/

namespace NlMsgHdr

@[simp] theorem length_encode (h : NlMsgHdr) : h.encode.length = nlmsgHdrlen :=
  length_encodeAll _ _

/-- A header is read as it was written. -/
theorem decode_encode (h : NlMsgHdr) : decode h.encode = h := by
  have hfits : Fits widths
      [h.len.toNat, h.type.toNat, h.flags.toNat, h.seq.toNat, h.pid.toNat] :=
    .cons h.len.toNat_lt (.cons h.type.toNat_lt (.cons h.flags.toNat_lt
      (.cons h.seq.toNat_lt (.cons h.pid.toNat_lt .nil))))
  have hread := decodeAll_encodeAll hfits []
  rw [List.append_nil] at hread
  rw [decode, encode, hread]
  simp

end NlMsgHdr

theorem headerOf_append (h : NlMsgHdr) (body : List UInt8) : headerOf (h.encode ++ body) = h := by
  rw [headerOf, List.take_left' h.length_encode, NlMsgHdr.decode_encode]

@[simp] theorem length_message (type flags : UInt16) (seq pid : UInt32) (body : List UInt8) :
    (message type flags seq pid body).length = 16 + body.length := by
  rw [message, List.length_append, NlMsgHdr.length_encode]
  rfl

theorem headerOf_message (type flags : UInt16) (seq pid : UInt32) (body : List UInt8) :
    headerOf (message type flags seq pid body) =
      ⟨.ofNat (16 + body.length), type, flags, seq, pid⟩ :=
  headerOf_append _ _

theorem lengthOf_messages (bytes : List UInt8) :
    messages.lengthOf bytes = (headerOf bytes).len.toNat := rfl

theorem isRecord_message (type flags : UInt16) (seq pid : UInt32) {body : List UInt8}
    (h : body.length < 1024) : messages.IsRecord (message type flags seq pid body) := by
  constructor
  · rw [length_message]
    exact Nat.le_add_right 16 _
  · rw [lengthOf_messages, headerOf_message, length_message]
    exact UInt32.toNat_ofNat_of_lt' (by simp only [UInt32.size]; omega)

/-! ### Links and addresses -/

/-- `IFLA_OPERSTATE`: up or down. -/
def Link.operstate (l : Link) : UInt8 := if l.ifflags &&& 1 ≠ 0 then 6 else 2

/-- The broadcast address. -/
def Link.broadcast (l : Link) : List UInt8 :=
  List.replicate l.hwaddr.length (if l.iftype = arphrdLoopback then 0x00 else 0xff)

/-- What a message says of a link. -/
def Link.fields (l : Link) : List (UInt16 × List UInt8) :=
  [(iflaIfname, l.name ++ [0]), (4, encode 4 l.mtu.toNat), (13, encode 4 1000),
    (16, [l.operstate])] ++
  if 0 < l.hwaddr.length then [(1, l.hwaddr), (2, l.broadcast)] else []

/-- What a message says of an address. -/
def Addr.fields (a : Addr) : List (UInt16 × List UInt8) :=
  (1, a.addr) :: (2, a.addr) ::
  match a.label with
  | none => []
  | some label => if a.ipv6 then [] else [(3, label ++ [0])]

/-- An interface has a name that the kernel can give. -/
def Named (name : List UInt8) : Prop := name.length < ifnamsiz

instance (name : List UInt8) : Decidable (Named name) := inferInstanceAs (Decidable (_ < _))

theorem Named.lt {name : List UInt8} (h : Named name) : name.length < 16 := h

theorem Link.length_broadcast_le (l : Link) : l.broadcast.length ≤ 8 := by
  rw [Link.broadcast, List.length_replicate]
  exact l.hwaddr_le

theorem Link.length_of_mem_fields (hname : Named l.name) {a : UInt16 × List UInt8}
    (ha : a ∈ l.fields) : a.2.length ≤ 16 := by
  have hlt := hname.lt
  have hhwaddr := l.hwaddr_le
  have hbroadcast := l.length_broadcast_le
  have hcases : a ∈ [(iflaIfname, l.name ++ [0]), ((4 : UInt16), encode 4 l.mtu.toNat),
      (13, encode 4 1000), (16, [l.operstate]), (1, l.hwaddr), (2, l.broadcast)] := by
    rw [Link.fields] at ha
    split at ha
    · exact ha
    · rw [List.append_nil] at ha
      exact List.mem_append_left [_, _] ha
  simp only [List.mem_cons, List.not_mem_nil, or_false] at hcases
  rcases hcases with rfl | rfl | rfl | rfl | rfl | rfl
  · simp
    omega
  · simp
  · simp
  · simp
  · exact Nat.le_trans hhwaddr (by decide)
  · exact Nat.le_trans hbroadcast (by decide)

theorem Addr.length_of_mem_fields (hlabel : ∀ label ∈ a.label, Named label)
    {b : UInt16 × List UInt8} (hb : b ∈ a.fields) : b.2.length ≤ 16 := by
  have haddr : a.addr.length ≤ 16 := by
    rw [a.addr_length]
    split <;> omega
  rw [Addr.fields, List.mem_cons, List.mem_cons] at hb
  rcases hb with rfl | rfl | hrest
  · exact haddr
  · exact haddr
  · cases hcase : a.label with
    | none =>
      rw [hcase] at hrest
      cases hrest
    | some label =>
      have hlt := (hlabel label hcase).lt
      rw [hcase] at hrest
      dsimp only at hrest
      split at hrest
      · cases hrest
      · rw [List.mem_singleton] at hrest
        subst hrest
        simp
        omega

/-- Attributes of at most 16 bytes each take at most 20. -/
theorem length_attrBytes_le (h : ∀ a ∈ as, a.2.length ≤ 16) :
    (attrBytes as).length ≤ 20 * as.length := by
  induction as with
  | nil => exact Nat.le_refl 0
  | cons a as ih =>
    have hfirst := h a List.mem_cons_self
    have hrest := ih fun b hb => h b (List.mem_cons_of_mem _ hb)
    rw [length_attrBytes_cons a.1 as (by omega), List.length_cons]
    omega

/-- One attribute after the other. -/
def nlAddAttrs (max start : ℕ) (as : List (UInt16 × List UInt8)) (written : List UInt8) :
    List UInt8 :=
  as.foldl (fun written a => nlAddAttr max start a.1 a.2 (.ofNat a.2.length) written) written

/-- With the room for them all, all are written. -/
theorem nlAddAttrs_eq {start : ℕ} (as : List (UInt16 × List UInt8))
    {bs : List (UInt16 × List UInt8)} (hdata : ∀ a ∈ bs, a.2.length < 1024)
    (hroom : start + (attrBytes (as ++ bs)).length ≤ max) :
    nlAddAttrs max start bs (attrBytes as) = attrBytes (as ++ bs) := by
  induction bs generalizing as with
  | nil => rw [List.append_nil, nlAddAttrs, List.foldl_nil]
  | cons b bs ih =>
    have hassoc : as ++ b :: bs = as ++ [b] ++ bs := by
      rw [List.append_assoc, List.singleton_append]
    have hfirst : (attrBytes (as ++ [b])).length ≤ (attrBytes (as ++ [b] ++ bs)).length := by
      simp only [attrBytes, List.map_append, RecordFormat.pack_append, List.length_append]
      omega
    rw [hassoc] at hroom ⊢
    have hone : start + (attrBytes (as ++ [(b.1, b.2)])).length ≤ max :=
      Nat.le_trans (Nat.add_le_add_left hfirst start) hroom
    rw [nlAddAttrs, List.foldl_cons, nlAddAttr_eq (hdata b List.mem_cons_self) hone]
    exact ih _ (fun a ha => hdata a (List.mem_cons_of_mem _ ha)) hroom

theorem nlAddString_eq (max start : ℕ) (type : UInt16) (s written : List UInt8) :
    nlAddString max start type s written =
      nlAddAttr max start type (s ++ [0]) (.ofNat (s ++ [0]).length) written := by
  rw [nlAddString, List.length_append]
  rfl

/-- The broadcast address is as long as the other. -/
theorem nlAddAttr_broadcast (max start : ℕ) (l : Link) (written : List UInt8) :
    nlAddAttr max start 2 (List.replicate 8 (if l.iftype = arphrdLoopback then 0x00 else 0xff))
        (.ofNat l.hwaddr.length) written =
      nlAddAttr max start 2 l.broadcast (.ofNat l.broadcast.length) written := by
  have hle := l.hwaddr_le
  rw [← nlAddAttr_take, toNat_length (by omega), List.take_replicate, Nat.min_eq_left hle,
    Link.broadcast, List.length_replicate]

theorem Link.attributes_eq_nlAddAttrs (max start : ℕ) (l : Link) :
    l.attributes max start = nlAddAttrs max start l.fields [] := by
  rw [Link.attributes, Link.fields]
  dsimp only
  rw [nlAddAttr_broadcast, nlAddString_eq]
  split
  · rfl
  · rfl

theorem Addr.attributes_eq_nlAddAttrs (max start : ℕ) (a : Addr) :
    a.attributes max start = nlAddAttrs max start a.fields [] := by
  rw [Addr.attributes, Addr.fields]
  cases a.label with
  | none => rfl
  | some label =>
    cases a.ipv6 with
    | true => rfl
    | false => exact nlAddString_eq max start 3 label _

/-! ### Items -/

/-- What a message of an answer says. -/
inductive Item
  | link (l : Link)
  | addr (a : Addr)
  | done
  | error (number : UInt32)
  /-- A message of the kernel. -/
  | kernel (record : List UInt8)
  deriving DecidableEq, Repr

namespace Item

/-- The type of the message. -/
def type : Item → UInt16
  | .link _ => rtmNewlink
  | .addr _ => rtmNewaddr
  | .done => nlmsgDone
  | .error _ => nlmsgError
  | .kernel record => (headerOf record).type

/-- What stands behind the header. -/
def body : Item → List UInt8
  | .link l => l.ifinfomsg ++ attrBytes l.fields
  | .addr a => a.ifaddrmsg ++ attrBytes a.fields
  | .done => encode 4 0
  | .error number => encode 4 number.toNat ++ List.replicate 16 0
  | .kernel record => record.drop nlmsgHdrlen

/-- The message.  `multi` is set in the answers to dumps. -/
def bytes (seq pid : UInt32) (multi : Bool) : Item → List UInt8
  | .kernel record => relayed seq pid record
  | item => message item.type (if multi then nlmFMulti else 0) seq pid item.body

/-- An item that becomes a message: its names are short, and a message of the kernel is one. -/
def Sound : Item → Prop
  | .link l => Named l.name
  | .addr a => ∀ label ∈ a.label, Named label
  | .kernel record => messages.IsRecord record
  | .done | .error _ => True

end Item

theorem Link.length_fields_le (l : Link) : l.fields.length ≤ 6 := by
  rw [Link.fields]
  split <;> simp

theorem Addr.length_fields_le (a : Addr) : a.fields.length ≤ 3 := by
  rw [Addr.fields]
  cases a.label with
  | none => simp
  | some label => cases a.ipv6 <;> simp

theorem Link.length_attrBytes_le (h : Named l.name) : (attrBytes l.fields).length ≤ 120 := by
  have hle := l.length_fields_le
  have hbytes := Netlink.length_attrBytes_le fun a ha => Link.length_of_mem_fields h ha
  omega

theorem Addr.length_attrBytes_le (h : ∀ label ∈ a.label, Named label) :
    (attrBytes a.fields).length ≤ 60 := by
  have hle := a.length_fields_le
  have hbytes := Netlink.length_attrBytes_le fun b hb => Addr.length_of_mem_fields h hb
  omega

@[simp] theorem Link.length_ifinfomsg (l : Link) : l.ifinfomsg.length = 16 := length_encodeAll _ _

@[simp] theorem Addr.length_ifaddrmsg (a : Addr) : a.ifaddrmsg.length = 8 := length_encodeAll _ _

/-- With the room that is kept for it, a link has all its attributes. -/
theorem nlBuildLink_eq {multi : Bool} (hname : Named l.name) (hroom : out.length + 256 ≤ max) :
    nlBuildLink max seq pid (if multi then nlmFMulti else 0) l out =
      out ++ messages.padded ((Item.link l).bytes seq pid multi) := by
  have hlength := Link.length_attrBytes_le hname
  have hwritten : l.attributes max (out.length + (nlmsgHdrlen + l.ifinfomsg.length)) =
      attrBytes l.fields := by
    rw [Link.attributes_eq_nlAddAttrs]
    apply nlAddAttrs_eq []
    · intro a ha
      have hle := Link.length_of_mem_fields hname ha
      omega
    · rw [Link.length_ifinfomsg, List.nil_append, nlmsgHdrlen]
      omega
  rw [nlBuildLink]
  rw [hwritten, Link.length_ifinfomsg, if_neg (by rw [nlmsgHdrlen]; omega)]
  rfl

/-- With the room that is kept for it, an address has all its attributes. -/
theorem nlBuildAddr_eq {multi : Bool} (hlabel : ∀ label ∈ a.label, Named label)
    (hroom : out.length + 256 ≤ max) :
    nlBuildAddr max seq pid (if multi then nlmFMulti else 0) a out =
      out ++ messages.padded ((Item.addr a).bytes seq pid multi) := by
  have hlength := Addr.length_attrBytes_le hlabel
  have hwritten : a.attributes max (out.length + (nlmsgHdrlen + a.ifaddrmsg.length)) =
      attrBytes a.fields := by
    rw [Addr.attributes_eq_nlAddAttrs]
    apply nlAddAttrs_eq []
    · intro b hb
      have hle := Addr.length_of_mem_fields hlabel hb
      omega
    · rw [Addr.length_ifaddrmsg, List.nil_append, nlmsgHdrlen]
      omega
  rw [nlBuildAddr]
  rw [hwritten, Addr.length_ifaddrmsg, if_neg (by rw [nlmsgHdrlen]; omega)]
  rfl

theorem nlBuildDone_eq (hroom : out.length + 20 ≤ max) :
    nlBuildDone max seq pid out = out ++ messages.padded (Item.done.bytes seq pid true) := by
  rw [nlBuildDone, nlBuildPlain, if_neg]
  · rfl
  · rw [length_encode, aligned_messages, nlmsgHdrlen]
    omega

theorem nlBuildError_eq {number : UInt32} (hroom : out.length + 36 ≤ max) :
    nlBuildError max seq pid number out =
      out ++ messages.padded ((Item.error number).bytes seq pid false) := by
  rw [nlBuildError, nlBuildPlain, if_neg]
  · rfl
  · rw [List.length_append, length_encode, List.length_replicate, aligned_messages, nlmsgHdrlen]
    omega

/-! ### What a receiver finds -/

theorem Item.length_body_lt {item : Item} (h : item.Sound) (hown : ∀ r, item ≠ .kernel r) :
    item.body.length < 1024 := by
  cases item with
  | link l =>
    have hle := Link.length_attrBytes_le h
    rw [Item.body, List.length_append, Link.length_ifinfomsg]
    omega
  | addr a =>
    have hle := Addr.length_attrBytes_le h
    rw [Item.body, List.length_append, Addr.length_ifaddrmsg]
    omega
  | done => exact Nat.lt_of_le_of_lt (Nat.le_of_eq (length_encode 4 0)) (by decide)
  | error number =>
    rw [Item.body, List.length_append, length_encode, List.length_replicate]
    decide
  | kernel record => exact absurd rfl (hown record)

theorem headerOf_relayed (seq pid : UInt32) (record : List UInt8) :
    headerOf (relayed seq pid record) = { headerOf record with seq := seq, pid := pid } :=
  headerOf_append _ _

theorem isRecord_relayed {record : List UInt8} (h : messages.IsRecord record) (seq pid : UInt32) :
    messages.IsRecord (relayed seq pid record) := by
  have hlength : (relayed seq pid record).length = record.length := by
    have hheader := h.1
    rw [relayed, List.length_append, NlMsgHdr.length_encode, List.length_drop]
    exact Nat.add_sub_cancel' hheader
  constructor
  · rw [hlength]
    exact h.1
  · rw [lengthOf_messages, headerOf_relayed, hlength]
    exact h.2

/-- Every message is a whole one. -/
theorem Item.isRecord_bytes {item : Item} (h : item.Sound) (seq pid : UInt32) (multi : Bool) :
    messages.IsRecord (item.bytes seq pid multi) := by
  cases item with
  | kernel record => exact isRecord_relayed h seq pid
  | link l => exact isRecord_message _ _ _ _ (Item.length_body_lt h (by simp))
  | addr a => exact isRecord_message _ _ _ _ (Item.length_body_lt h (by simp))
  | done => exact isRecord_message _ _ _ _ (Item.length_body_lt h (by simp))
  | error number => exact isRecord_message _ _ _ _ (Item.length_body_lt h (by simp))

/-- The header of a message. -/
theorem Item.headerOf_bytes (item : Item) (seq pid : UInt32) (multi : Bool) :
    (headerOf (item.bytes seq pid multi)).type = item.type ∧
      (headerOf (item.bytes seq pid multi)).seq = seq ∧
      (headerOf (item.bytes seq pid multi)).pid = pid := by
  cases item with
  | kernel record =>
    rw [Item.bytes, headerOf_relayed]
    exact ⟨rfl, rfl, rfl⟩
  | link l => exact headerOf_message _ _ _ _ _ ▸ ⟨rfl, rfl, rfl⟩
  | addr a => exact headerOf_message _ _ _ _ _ ▸ ⟨rfl, rfl, rfl⟩
  | done => exact headerOf_message _ _ _ _ _ ▸ ⟨rfl, rfl, rfl⟩
  | error number => exact headerOf_message _ _ _ _ _ ▸ ⟨rfl, rfl, rfl⟩

end NeoProot.Netlink
