import NeoProot.Syscall.NetlinkRecords
import Mathlib.Data.List.Dedup
import Mathlib.Data.List.Infix

/-!
# What an answer has of the host

An answer is a sequence of whole messages.  They are about what the request asks for, in the
order of the host, as many as there is room for; a dump ends with its only `NLMSG_DONE`.

## Main definitions

* `NetHost.items`, `Request.fallback`, `Request.answer` — what is answered.
* `Shown` — some items are written and the others are not.
-/

namespace NeoProot.Netlink
open LittleEndian RecordFormat

variable {before shown : List Item} {host : NetHost} {req : Request}

/-! ### What is asked for -/

/-- The links that a request is about, from the names that were seen. -/
def NetHost.links (host : NetHost) (target : Option (UInt32 × List UInt8)) :
    List IfAddrs → List (List UInt8) → List Link
  | [], _ => []
  | ifa :: rest, seen =>
    match ifa.name with
    | none => host.links target rest seen
    | some name =>
      if dup seen name then host.links target rest seen
      else
        let seen := if seen.length < 64 then seen ++ [name.take (ifnamsiz - 1)] else seen
        let link := host.link ifa name
        if target.any fun target => !wanted target name link.ifindex then
          host.links target rest seen
        else if target.isNone then link :: host.links target rest seen
        else [link]

/-- The addresses that a request is about. -/
def NetHost.addrs (host : NetHost) (wantFamily : Option Bool) (ifas : List IfAddrs) : List Addr :=
  (ifas.filterMap host.address).filter fun a => !(wantFamily.any fun ipv6 => a.ipv6 != ipv6)

/-- The messages of the kernel about its routes. -/
def NetHost.routeMessages (host : NetHost) (family : UInt8) (seq : UInt32) : List (List UInt8) :=
  (((host.routes family seq).getD []).take 64).flatMap fun d => messages.unpack d.bytes

/-- The messages of the kernel that a request is about. -/
def NetHost.relayedMessages (host : NetHost) (req : Request) : List (List UInt8) :=
  if req.header.type = rtmGetroute ∧ req.dump = true then
    host.routeMessages req.family req.header.seq
  else []

/-- A message does not end a dump. -/
def goesOn (record : List UInt8) : Bool := (headerOf record).type ≠ nlmsgDone

/-- The family of the addresses. -/
def Request.wantFamily (req : Request) : Option Bool :=
  if req.family = 2 then some false else if req.family = 10 then some true else none

/-- What the host has of what is asked for. -/
def NetHost.items (host : NetHost) (req : Request) : List Item :=
  if req.header.type = rtmGetlink then
    (host.links (if req.dump then none else some req.linkTarget)
      (host.interfaces.getD []) []).map .link
  else if req.header.type = rtmGetaddr then
    (host.addrs req.wantFamily (host.interfaces.getD [])).map .addr
  else ((host.relayedMessages req).takeWhile goesOn).map .kernel

/-- `lo`, as it is made up. -/
def loopbackLink : Link :=
  ⟨1, arphrdLoopback, 1 ||| iffLoopback ||| iffRunning, 65536, [108, 111], List.replicate 6 0,
    length_loopback_hwaddr⟩

/-- The address of `lo`. -/
def loopbackAddr (ipv6 : Bool) : Addr :=
  if ipv6 then ⟨true, 1, List.replicate 15 0 ++ [1], length_loopback_addr₆, 128, 254, none⟩
  else ⟨false, 1, [127, 0, 0, 1], length_loopback_addr₄, 8, 254, some [108, 111]⟩

/-- What is said if the host has nothing. -/
def Request.fallback (req : Request) : List Item :=
  if req.header.type = rtmGetlink then
    if req.dump || req.isLoopback then [.link loopbackLink] else [.error (-19)]
  else if req.header.type = rtmGetaddr then
    (if req.family = 0 ∨ req.family = 2 then [.addr (loopbackAddr false)] else []) ++
      if req.family = 0 ∨ req.family = 10 then [.addr (loopbackAddr true)] else []
  else if req.dump then []
  else [.error 0]

/-- The messages for a request, from what is shown of the host and the end of a dump. -/
def Request.said (req : Request) (shown : List Item) (last : Item) : List Item :=
  (if shown = [] then req.fallback else shown) ++ if req.dump then [last] else []

/-- The items of an answer. -/
def Request.answer (req : Request) (shown : List Item) (last : Item) : List Item :=
  if req.said shown last = [] then [.error (-22)] else req.said shown last

/-- The interfaces of a host have names that a kernel can give. -/
def NetHost.Sound (host : NetHost) : Prop :=
  ∀ ifas ∈ host.interfaces, ∀ ifa ∈ ifas, ∀ name ∈ ifa.name, Named name

/-! ### What is written -/

variable (seq pid : UInt32) (multi : Bool)

/-- The bytes of some items. -/
def itemBytes (items : List Item) : List UInt8 :=
  messages.pack (items.map (Item.bytes seq pid multi))

/-- Behind what is written before, the first of the items are shown, up to one that comes too near
to the end of the buffer. -/
structure Shown (before items shown : List Item) : Prop where
  initial : shown <+: items
  room : (itemBytes seq pid multi (before ++ shown)).length + 64 ≤ maxFakeNetlinkReply
  full : ∀ next, shown ++ [next] <+: items →
    maxFakeNetlinkReply < (itemBytes seq pid multi (before ++ (shown ++ [next]))).length + 256

variable {seq pid multi}

@[simp] theorem itemBytes_nil : itemBytes seq pid multi [] = [] := rfl

theorem itemBytes_append (as bs : List Item) :
    itemBytes seq pid multi (as ++ bs) =
      itemBytes seq pid multi as ++ itemBytes seq pid multi bs := by
  rw [itemBytes, List.map_append, pack_append]
  rfl

theorem itemBytes_singleton (a : Item) :
    itemBytes seq pid multi [a] = messages.padded (a.bytes seq pid multi) := pack_singleton _

theorem itemBytes_concat (as : List Item) (a : Item) :
    itemBytes seq pid multi (as ++ [a]) =
      itemBytes seq pid multi as ++ messages.padded (a.bytes seq pid multi) := by
  rw [itemBytes_append, itemBytes_singleton]

theorem Shown.nil (hroom : (itemBytes seq pid multi before).length + 64 ≤ maxFakeNetlinkReply) :
    Shown seq pid multi before [] [] where
  initial := List.nil_prefix
  room := by rwa [List.append_nil]
  full next h := by
    have hlength := h.length_le
    rw [List.length_append, List.length_singleton, List.length_nil] at hlength
    omega

theorem Shown.stop {item : Item} {items : List Item}
    (hroom : (itemBytes seq pid multi before).length + 64 ≤ maxFakeNetlinkReply)
    (hfull : maxFakeNetlinkReply < (itemBytes seq pid multi (before ++ [item])).length + 256) :
    Shown seq pid multi before (item :: items) [] where
  initial := List.nil_prefix
  room := by rwa [List.append_nil]
  full next h := by
    rw [List.nil_append, List.cons_prefix_cons] at h
    rwa [List.nil_append, h.1]

theorem Shown.cons {before : List Item} {item : Item} {items shown : List Item}
    (h : Shown seq pid multi (before ++ [item]) items shown) :
    Shown seq pid multi before (item :: items) (item :: shown) where
  initial := List.cons_prefix_cons.2 ⟨rfl, h.initial⟩
  room := by
    have hroom := h.room
    rwa [List.append_assoc, List.singleton_append] at hroom
  full next hnext := by
    rw [List.cons_append, List.cons_prefix_cons] at hnext
    have hfull := h.full next hnext.2
    rwa [List.append_assoc, List.singleton_append] at hfull

/-! ### Links -/

variable (seq pid multi) in
theorem Item.length_link_le {l : Link} (h : Named l.name) :
    (messages.padded ((Item.link l).bytes seq pid multi)).length ≤ 152 := by
  have hle := Link.length_attrBytes_le h
  rw [length_padded, aligned_messages, Item.bytes, length_message, Item.body, List.length_append,
    Link.length_ifinfomsg]
  · omega
  · simp

variable (seq pid multi) in
theorem Item.length_addr_le {a : Addr} (h : ∀ label ∈ a.label, Named label) :
    (messages.padded ((Item.addr a).bytes seq pid multi)).length ≤ 84 := by
  have hle := Addr.length_attrBytes_le h
  rw [length_padded, aligned_messages, Item.bytes, length_message, Item.body, List.length_append,
    Addr.length_ifaddrmsg]
  · omega
  · simp

theorem NetHost.name_link (host : NetHost) (ifa : IfAddrs) (name : List UInt8) :
    (host.link ifa name).name = name := by
  rw [NetHost.link]
  dsimp only
  repeat' split
  all_goals rfl

/-- `buildHostLinks` shows links while there is room for them. -/
theorem buildHostLinks_eq {target : Option (UInt32 × List UInt8)} {ifas : List IfAddrs}
    (hnamed : ∀ ifa ∈ ifas, ∀ name ∈ ifa.name, Named name)
    (hroom : (itemBytes seq pid target.isNone before).length + 64 ≤ maxFakeNetlinkReply)
    (seen : List (List UInt8)) (built : ℕ) :
    ∃ shown, Shown seq pid target.isNone before ((host.links target ifas seen).map .link) shown ∧
      buildHostLinks host maxFakeNetlinkReply seq pid target ifas seen
        (itemBytes seq pid target.isNone before) built =
      (itemBytes seq pid target.isNone (before ++ shown), built + shown.length) := by
  induction ifas generalizing before seen built with
  | nil =>
    refine ⟨[], .nil hroom, ?_⟩
    rw [buildHostLinks, List.append_nil]
    rfl
  | cons ifa rest ih =>
    have hrest := fun ifa' h => hnamed ifa' (List.mem_cons_of_mem ifa h)
    rw [buildHostLinks, NetHost.links]
    cases hname : ifa.name with
    | none => exact ih hrest hroom seen built
    | some name =>
      have hshort := hnamed ifa List.mem_cons_self name hname
      have hlink : Named (host.link ifa name).name := by rwa [host.name_link]
      have hlength := Item.length_link_le seq pid target.isNone hlink
      dsimp only
      generalize (if seen.length < 64 then seen ++ [name.take (ifnamsiz - 1)] else seen) = seen'
      by_cases hseen : dup seen name = true
      · rw [if_pos hseen, if_pos hseen]
        exact ih hrest hroom seen built
      rw [if_neg hseen, if_neg hseen]
      by_cases hwanted : (target.any fun target =>
          !wanted target name (host.link ifa name).ifindex) = true
      · rw [if_pos hwanted, if_pos hwanted]
        exact ih hrest hroom seen' built
      rw [if_neg hwanted, if_neg hwanted]
      by_cases hfull : maxFakeNetlinkReply <
          (itemBytes seq pid target.isNone before).length + 256
      · refine ⟨[], ?_, ?_⟩
        · have hstop : ∀ items, Shown seq pid target.isNone before
              (.link (host.link ifa name) :: items) [] := by
            intro items
            apply Shown.stop hroom
            rw [itemBytes_append, List.length_append]
            omega
          split
          · exact hstop _
          · exact hstop _
        · rw [if_pos hfull, List.append_nil]
          rfl
      rw [if_neg hfull, nlBuildLink_eq hlink (by omega), ← itemBytes_concat]
      have hnext : (itemBytes seq pid target.isNone
          (before ++ [.link (host.link ifa name)])).length + 64 ≤ maxFakeNetlinkReply := by
        rw [itemBytes_concat, List.length_append]
        omega
      cases hdump : target.isNone with
      | true =>
        rw [hdump] at hnext ih
        obtain ⟨shown, hshown, hbuild⟩ := ih hrest hnext seen' (built + 1)
        refine ⟨.link (host.link ifa name) :: shown, hshown.cons, ?_⟩
        rw [if_pos rfl, hbuild, List.append_assoc, List.singleton_append, List.length_cons,
          Nat.add_assoc, Nat.add_comm 1]
      | false =>
        rw [hdump] at hnext
        refine ⟨[.link (host.link ifa name)], ?_, ?_⟩
        · rw [if_neg (by decide)]
          exact (Shown.nil hnext).cons
        · rw [if_neg (by decide)]
          rfl

/-! ### Addresses -/

theorem NetHost.named_address {ifa : IfAddrs} {a : Addr} (hnamed : ∀ name ∈ ifa.name, Named name)
    (h : host.address ifa = some a) : ∀ label ∈ a.label, Named label := by
  intro label hlabel
  rw [NetHost.address] at h
  split at h
  · next name _ _ hname _ =>
    cases h
    cases hlabel
    exact hnamed label hname
  · next name _ _ hname _ =>
    cases h
    cases hlabel
    exact hnamed label hname
  · cases h

/-- `buildHostAddrs` shows addresses while there is room for them. -/
theorem buildHostAddrs_eq (wantFamily : Option Bool) {ifas : List IfAddrs}
    (hnamed : ∀ ifa ∈ ifas, ∀ name ∈ ifa.name, Named name)
    (hroom : (itemBytes seq pid multi before).length + 64 ≤ maxFakeNetlinkReply) (built : ℕ) :
    ∃ shown, Shown seq pid multi before ((host.addrs wantFamily ifas).map .addr) shown ∧
      buildHostAddrs host maxFakeNetlinkReply seq pid wantFamily multi ifas
        (itemBytes seq pid multi before) built =
      (itemBytes seq pid multi (before ++ shown), built + shown.length) := by
  induction ifas generalizing before built with
  | nil =>
    refine ⟨[], .nil hroom, ?_⟩
    rw [buildHostAddrs, List.append_nil]
    rfl
  | cons ifa rest ih =>
    have hrest := fun ifa' h => hnamed ifa' (List.mem_cons_of_mem ifa h)
    rw [buildHostAddrs, NetHost.addrs, List.filterMap_cons]
    cases haddr : host.address ifa with
    | none => exact ih hrest hroom built
    | some a =>
      have hlabel := NetHost.named_address (hnamed ifa List.mem_cons_self) haddr
      have hlength := Item.length_addr_le seq pid multi hlabel
      dsimp only
      rw [List.filter_cons]
      by_cases hwanted : (wantFamily.any fun ipv6 => a.ipv6 != ipv6) = true
      · rw [if_pos hwanted, hwanted]
        exact ih hrest hroom built
      rw [Bool.not_eq_true] at hwanted
      rw [hwanted, if_pos (show (!false) = true from rfl), if_neg Bool.false_ne_true, List.map_cons]
      by_cases hfull : maxFakeNetlinkReply < (itemBytes seq pid multi before).length + 256
      · refine ⟨[], .stop hroom ?_, ?_⟩
        · rw [itemBytes_append, List.length_append]
          omega
        · rw [if_pos hfull, List.append_nil]
          rfl
      rw [if_neg hfull, nlBuildAddr_eq hlabel (by omega), ← itemBytes_concat]
      have hnext : (itemBytes seq pid multi (before ++ [.addr a])).length + 64 ≤
          maxFakeNetlinkReply := by
        rw [itemBytes_concat, List.length_append]
        omega
      obtain ⟨shown, hshown, hbuild⟩ := ih hrest hnext (built + 1)
      refine ⟨.addr a :: shown, hshown.cons, ?_⟩
      rw [hbuild, List.append_assoc, List.singleton_append, List.length_cons, Nat.add_assoc,
        Nat.add_comm 1]

/-! ### Routes -/

/-- The end of a dump: `NLMSG_DONE`, from the kernel or not. -/
inductive IsEnd (records : List (List UInt8)) : Item → Prop
  | done : IsEnd records .done
  | kernel (record : List UInt8) (hmem : record ∈ records)
      (htype : (headerOf record).type = nlmsgDone) : IsEnd records (.kernel record)

variable (seq pid multi) in
theorem length_padded_kernel {record : List UInt8} (h : messages.IsRecord record) :
    (messages.padded ((Item.kernel record).bytes seq pid multi)).length =
      messages.aligned record.length := by
  have hheader : nlmsgHdrlen ≤ record.length := h.1
  rw [length_padded, Item.bytes, relayed, List.length_append, NlMsgHdr.length_encode,
    List.length_drop, Nat.add_sub_cancel' hheader]

theorem relayMessages_append (max : ℕ) (seq pid : UInt32) (as bs : List (List UInt8))
    (out : List UInt8) :
    relayMessages max seq pid (as ++ bs) out =
      if (relayMessages max seq pid as out).2.1 then relayMessages max seq pid as out
      else relayMessages max seq pid bs (relayMessages max seq pid as out).1 := by
  induction as generalizing out with
  | nil => rfl
  | cons a as ih =>
    rw [List.cons_append, relayMessages, relayMessages]
    by_cases hfull : max < out.length + messages.aligned a.length + 64
    · simp only [if_pos hfull, if_true]
    · by_cases hdone : (headerOf a).type = nlmsgDone
      · simp only [if_neg hfull, if_pos hdone, if_true]
      · simp only [if_neg hfull, if_neg hdone]
        exact ih _

/-- The datagrams are read as one list of messages. -/
theorem relayRounds_eq (max : ℕ) (seq pid : UInt32) (ds : List Datagram) (out : List UInt8) :
    relayRounds max seq pid ds out =
      ((relayMessages max seq pid (ds.flatMap fun d => messages.unpack d.bytes) out).1,
        (relayMessages max seq pid (ds.flatMap fun d => messages.unpack d.bytes) out).2.2) := by
  induction ds generalizing out with
  | nil => rfl
  | cons d rest ih =>
    rw [relayRounds, List.flatMap_cons, relayMessages_append]
    cases hmessages : relayMessages max seq pid (messages.unpack d.bytes) out with
    | mk out' flags =>
      cases flags with
      | mk stop sawDone =>
        cases stop with
        | true => rfl
        | false =>
          dsimp only
          rw [if_neg Bool.false_ne_true]
          exact ih out'

/-- `relayMessages` shows messages while there is room for them, and then the end of the dump. -/
theorem relayMessages_eq {records : List (List UInt8)} (h : ∀ r ∈ records, messages.IsRecord r)
    (hroom : (itemBytes seq pid multi before).length + 64 ≤ maxFakeNetlinkReply) :
    ∃ shown, Shown seq pid multi before ((records.takeWhile goesOn).map .kernel) shown ∧
      if (relayMessages maxFakeNetlinkReply seq pid records (itemBytes seq pid multi before)).2.2
      then ∃ last, IsEnd records last ∧ last.Sound ∧
        (itemBytes seq pid multi (before ++ shown ++ [last])).length ≤ maxFakeNetlinkReply ∧
        (relayMessages maxFakeNetlinkReply seq pid records (itemBytes seq pid multi before)).1 =
          itemBytes seq pid multi (before ++ shown ++ [last])
      else
        (relayMessages maxFakeNetlinkReply seq pid records (itemBytes seq pid multi before)).1 =
          itemBytes seq pid multi (before ++ shown) := by
  induction records generalizing before with
  | nil =>
    refine ⟨[], .nil hroom, ?_⟩
    rw [List.append_nil, relayMessages]
    rfl
  | cons record records ih =>
    have hrecord := h record List.mem_cons_self
    have hlength := length_padded_kernel seq pid multi hrecord
    rw [relayMessages, List.takeWhile_cons]
    by_cases hfull : maxFakeNetlinkReply <
        (itemBytes seq pid multi before).length + messages.aligned record.length + 64
    · rw [if_pos hfull]
      refine ⟨[], ?_, ?_⟩
      · cases goesOn record with
        | false => exact .nil hroom
        | true =>
          refine .stop hroom ?_
          rw [itemBytes_concat, List.length_append]
          omega
      · rw [List.append_nil]
        rfl
    have hwritten : itemBytes seq pid multi before ++ messages.padded (relayed seq pid record) =
        itemBytes seq pid multi (before ++ [.kernel record]) :=
      (itemBytes_concat before (.kernel record)).symm
    have hnext : (itemBytes seq pid multi (before ++ [.kernel record])).length + 64 ≤
        maxFakeNetlinkReply := by
      rw [itemBytes_concat, List.length_append]
      omega
    rw [if_neg hfull, hwritten]
    by_cases hdone : (headerOf record).type = nlmsgDone
    · have hstop : goesOn record = false := by simp [goesOn, hdone]
      rw [if_pos hdone, hstop]
      refine ⟨[], .nil hroom, ?_⟩
      rw [if_pos rfl, List.append_nil]
      exact ⟨.kernel record, .kernel record List.mem_cons_self hdone, hrecord, by omega, rfl⟩
    · have hgoes : goesOn record = true := by simp [goesOn, hdone]
      rw [if_neg hdone, hgoes]
      obtain ⟨shown, hshown, hout⟩ := ih (fun r hr => h r (List.mem_cons_of_mem _ hr)) hnext
      refine ⟨.kernel record :: shown, hshown.cons, ?_⟩
      rw [List.append_assoc, List.singleton_append] at hout
      split at hout
      · next hsaw =>
        rw [if_pos hsaw]
        obtain ⟨last, hlast, hsound, hle, heq⟩ := hout
        refine ⟨last, ?_, hsound, hle, heq⟩
        cases hlast with
        | done => exact .done
        | kernel record' hmem htype => exact .kernel record' (List.mem_cons_of_mem _ hmem) htype
      · next hsaw =>
        rw [if_neg hsaw]
        exact hout

/-! ### The answer -/

/-- The items are made here, from names that are short. -/
def Own (items : List Item) : Prop := ∀ item ∈ items, item.Sound ∧ ∀ r, item ≠ .kernel r

variable (seq pid multi) in
theorem length_itemBytes_le {items : List Item} (h : Own items) :
    (itemBytes seq pid multi items).length ≤ 1044 * items.length := by
  induction items with
  | nil => exact Nat.le_refl 0
  | cons item items ih =>
    have hrest := ih fun item' hitem => h item' (List.mem_cons_of_mem _ hitem)
    obtain ⟨hsound, hown⟩ := h item List.mem_cons_self
    have hbody := Item.length_body_lt hsound hown
    have hbytes : (item.bytes seq pid multi).length = 16 + item.body.length := by
      cases item with
      | kernel record => exact absurd rfl (hown record)
      | link l => exact length_message _ _ _ _ _
      | addr a => exact length_message _ _ _ _ _
      | done => exact length_message _ _ _ _ _
      | error number => exact length_message _ _ _ _ _
    rw [← List.singleton_append, itemBytes_append, itemBytes_singleton, List.length_append,
      length_padded, aligned_messages, hbytes, List.length_append, List.length_singleton]
    omega

theorem named_lo : Named [108, 111] := by decide

theorem sound_loopbackAddr (ipv6 : Bool) : (Item.addr (loopbackAddr ipv6)).Sound := by
  intro label hlabel
  cases ipv6 with
  | true => cases hlabel
  | false =>
    cases hlabel
    exact named_lo

theorem Own.nil : Own [] := by simp [Own]

theorem Own.singleton {item : Item} (hsound : item.Sound) (hown : ∀ r, item ≠ .kernel r) :
    Own [item] := by
  intro item' hitem
  rw [List.mem_singleton.1 hitem]
  exact ⟨hsound, hown⟩

theorem Own.append {as bs : List Item} (has : Own as) (hbs : Own bs) : Own (as ++ bs) := by
  intro item hitem
  cases List.mem_append.1 hitem with
  | inl h => exact has item h
  | inr h => exact hbs item h

theorem own_fallback (req : Request) : Own req.fallback := by
  have herror : ∀ number, Own [.error number] := fun number => .singleton trivial (by simp)
  have haddr : ∀ ipv6, Own [.addr (loopbackAddr ipv6)] := fun ipv6 =>
    .singleton (sound_loopbackAddr ipv6) (by simp)
  rw [Request.fallback]
  split
  · split
    · exact .singleton named_lo (by simp)
    · exact herror _
  · split
    · apply Own.append
      · split
        · exact haddr false
        · exact .nil
      · split
        · exact haddr true
        · exact .nil
    · split
      · exact .nil
      · exact herror 0

theorem length_fallback_le (req : Request) : req.fallback.length ≤ 2 := by
  rw [Request.fallback]
  split_ifs <;> simp

/-- Behind two messages that are made here there is room for another. -/
theorem room_of_own {items : List Item} (h : Own items) (hfew : items.length ≤ 2) :
    (itemBytes seq pid multi items).length + 256 ≤ maxFakeNetlinkReply := by
  have hle := length_itemBytes_le seq pid multi h
  rw [maxFakeNetlinkReply]
  omega

theorem length_done : (messages.padded (Item.done.bytes seq pid multi)).length = 20 := by
  rw [length_padded, aligned_messages, Item.bytes, length_message, Item.body, length_encode]
  simp

/-- There is room for the end of a dump. -/
theorem nlBuildDone_shown {items : List Item}
    (hroom : (itemBytes seq pid true items).length + 64 ≤ maxFakeNetlinkReply) :
    nlBuildDone maxFakeNetlinkReply seq pid (itemBytes seq pid true items) =
        itemBytes seq pid true (items ++ [.done]) ∧
      (itemBytes seq pid true (items ++ [.done])).length ≤ maxFakeNetlinkReply := by
  rw [nlBuildDone_eq (by omega), itemBytes_concat, List.length_append, length_done]
  exact ⟨rfl, by omega⟩

/-- There is room for the end of a dump behind what is said. -/
theorem nlBuildDone_said {items : List Item} (hshown : Shown seq pid true [] items shown)
    (hdump : req.dump = true) :
    nlBuildDone maxFakeNetlinkReply seq pid
        (itemBytes seq pid true (if shown = [] then req.fallback else shown)) =
      itemBytes seq pid true (req.said shown .done) := by
  rw [Request.said, hdump, if_pos rfl]
  refine (nlBuildDone_shown ?_).1
  split
  · exact Nat.le_trans (Nat.add_le_add_left (by decide) _)
      (room_of_own (own_fallback req) (length_fallback_le req))
  · have hroom := hshown.room
    rwa [List.nil_append] at hroom

theorem NetHost.Sound.named (h : host.Sound) :
    ∀ ifa ∈ host.interfaces.getD [], ∀ name ∈ ifa.name, Named name := by
  intro ifa hifa
  cases hifas : host.interfaces with
  | none =>
    rw [hifas] at hifa
    cases hifa
  | some ifas =>
    rw [hifas] at hifa
    exact h ifas hifas ifa hifa

variable (seq pid multi) in
theorem room_nil : (itemBytes seq pid multi []).length + 64 ≤ maxFakeNetlinkReply :=
  show 64 ≤ 8192 by decide

variable (multi) in
theorem nlBuildLoopbackLink_eq :
    nlBuildLoopbackLink maxFakeNetlinkReply seq pid (if multi then nlmFMulti else 0) [] =
      itemBytes seq pid multi [.link loopbackLink] := by
  rw [itemBytes_singleton]
  exact nlBuildLink_eq (l := loopbackLink) named_lo (show 256 ≤ 8192 by decide)

theorem nlBuildError_nil (number : UInt32) :
    nlBuildError maxFakeNetlinkReply seq pid number [] =
      itemBytes seq pid false [.error number] := by
  rw [nlBuildError_eq (show [].length + 36 ≤ maxFakeNetlinkReply by decide), itemBytes_singleton]
  rfl

/-- What a host has is looked at if it says something. -/
theorem getD_map_nil {β : Type} (ifas : Option (List IfAddrs)) {f : List IfAddrs → β} {b : β}
    (h : f [] = b) : (ifas.map f).getD b = f (ifas.getD []) := by
  cases ifas with
  | none => exact h.symm
  | some ifas => rfl

/-- A dump is ended behind what is said. -/
theorem ended_said {items : List Item} {out : List UInt8}
    (hshown : Shown seq pid req.dump [] items shown)
    (hout : out = itemBytes seq pid req.dump (if shown = [] then req.fallback else shown)) :
    (if req.dump then nlBuildDone maxFakeNetlinkReply seq pid out else out) =
      itemBytes seq pid req.dump (req.said shown .done) := by
  rw [hout]
  cases hdump : req.dump with
  | true =>
    rw [hdump] at hshown
    rw [if_pos rfl]
    exact nlBuildDone_said hshown hdump
  | false => rw [if_neg Bool.false_ne_true, Request.said, hdump, if_neg Bool.false_ne_true,
      List.append_nil]

/-- The messages about links. -/
theorem replyLinks_eq (hhost : host.Sound) (htype : req.header.type = rtmGetlink) (pid : UInt32) :
    ∃ shown, Shown req.header.seq pid req.dump [] (host.items req) shown ∧
      replyLinks host maxFakeNetlinkReply req pid =
        itemBytes req.header.seq pid req.dump (req.said shown .done) := by
  have htarget : (if req.dump then none else some req.linkTarget).isNone = req.dump := by
    cases req.dump <;> rfl
  obtain ⟨shown, hshown, hbuild⟩ := buildHostLinks_eq hhost.named
    (room_nil req.header.seq pid (if req.dump then none else some req.linkTarget).isNone) [] 0
  rw [htarget] at hshown hbuild
  rw [List.nil_append, itemBytes_nil, Nat.zero_add] at hbuild
  refine ⟨shown, ?_, ?_⟩
  · rw [NetHost.items, if_pos htype]
    exact hshown
  have hout : (if shown.length = 0 then
      if req.dump then nlBuildLoopbackLink maxFakeNetlinkReply req.header.seq pid nlmFMulti []
      else if req.isLoopback then
        nlBuildLoopbackLink maxFakeNetlinkReply req.header.seq pid 0 []
      else nlBuildError maxFakeNetlinkReply req.header.seq pid (-19) []
    else itemBytes req.header.seq pid req.dump shown) =
      itemBytes req.header.seq pid req.dump (if shown = [] then req.fallback else shown) := by
    by_cases hnone : shown = []
    · rw [if_pos hnone, if_pos (List.length_eq_zero_iff.2 hnone), Request.fallback, if_pos htype]
      cases req.dump with
      | true => exact nlBuildLoopbackLink_eq true
      | false =>
        cases req.isLoopback with
        | true => exact nlBuildLoopbackLink_eq false
        | false => exact nlBuildError_nil (-19)
    · rw [if_neg hnone, if_neg (mt List.length_eq_zero_iff.1 hnone)]
  rw [replyLinks]
  dsimp only
  rw [getD_map_nil, hbuild]
  · exact ended_said hshown hout
  · rfl

/-- An address of `lo`, with the room for it. -/
theorem nlBuildLoopbackAddr_eq (items : List Item) (ipv6 : Bool)
    (hroom : (itemBytes seq pid multi items).length + 256 ≤ maxFakeNetlinkReply) :
    nlBuildLoopbackAddr maxFakeNetlinkReply seq pid ipv6 (if multi then nlmFMulti else 0)
        (itemBytes seq pid multi items) =
      itemBytes seq pid multi (items ++ [.addr (loopbackAddr ipv6)]) := by
  rw [itemBytes_concat]
  exact nlBuildAddr_eq (sound_loopbackAddr ipv6) hroom

/-- The messages about addresses. -/
theorem replyAddrs_eq (hhost : host.Sound) (hlink : req.header.type ≠ rtmGetlink)
    (htype : req.header.type = rtmGetaddr) (pid : UInt32) :
    ∃ shown, Shown req.header.seq pid req.dump [] (host.items req) shown ∧
      replyAddrs host maxFakeNetlinkReply req pid =
        itemBytes req.header.seq pid req.dump (req.said shown .done) := by
  obtain ⟨shown, hshown, hbuild⟩ := buildHostAddrs_eq req.wantFamily hhost.named
    (room_nil req.header.seq pid req.dump) 0
  rw [List.nil_append, itemBytes_nil, Nat.zero_add] at hbuild
  refine ⟨shown, ?_, ?_⟩
  · rw [NetHost.items, if_neg hlink, if_pos htype]
    exact hshown
  have hlo₄ : (if req.family = 0 ∨ req.family = 2 then
      nlBuildLoopbackAddr maxFakeNetlinkReply req.header.seq pid false
        (if req.dump then nlmFMulti else 0) [] else []) =
      itemBytes req.header.seq pid req.dump
        (if req.family = 0 ∨ req.family = 2 then [.addr (loopbackAddr false)] else []) := by
    split
    · exact nlBuildLoopbackAddr_eq [] false (show 256 ≤ 8192 by decide)
    · rfl
  have hout : (if shown.length = 0 then
      if req.family = 0 ∨ req.family = 10 then
        nlBuildLoopbackAddr maxFakeNetlinkReply req.header.seq pid true
          (if req.dump then nlmFMulti else 0)
          (if req.family = 0 ∨ req.family = 2 then
            nlBuildLoopbackAddr maxFakeNetlinkReply req.header.seq pid false
              (if req.dump then nlmFMulti else 0) [] else [])
      else if req.family = 0 ∨ req.family = 2 then
        nlBuildLoopbackAddr maxFakeNetlinkReply req.header.seq pid false
          (if req.dump then nlmFMulti else 0) [] else []
    else itemBytes req.header.seq pid req.dump shown) =
      itemBytes req.header.seq pid req.dump (if shown = [] then req.fallback else shown) := by
    by_cases hnone : shown = []
    · rw [if_pos hnone, if_pos (List.length_eq_zero_iff.2 hnone), hlo₄, Request.fallback,
        if_neg hlink, if_pos htype]
      split
      · refine nlBuildLoopbackAddr_eq _ true (room_of_own ?_ ?_)
        · split
          · exact .singleton (sound_loopbackAddr false) (by simp)
          · exact .nil
        · split <;> simp
      · rw [List.append_nil]
    · rw [if_neg hnone, if_neg (mt List.length_eq_zero_iff.1 hnone)]
  rw [replyAddrs]
  dsimp only
  rw [← Request.wantFamily, getD_map_nil, hbuild]
  · exact ended_said hshown hout
  · rfl

variable (seq pid multi) in
theorem itemBytes_ne_nil {items : List Item} (h : items ≠ []) :
    itemBytes seq pid multi items ≠ [] := by
  cases items with
  | nil => exact absurd rfl h
  | cons item items =>
    intro hnil
    have hlength := congrArg List.length hnil
    have hheader : 16 ≤ (item.bytes seq pid multi).length := by
      cases item with
      | kernel record =>
        rw [Item.bytes, relayed, List.length_append, NlMsgHdr.length_encode]
        exact Nat.le_add_right 16 _
      | link l => exact Nat.le_trans (Nat.le_add_right 16 _) (length_message _ _ _ _ _).ge
      | addr a => exact Nat.le_trans (Nat.le_add_right 16 _) (length_message _ _ _ _ _).ge
      | done => exact Nat.le_trans (Nat.le_add_right 16 _) (length_message _ _ _ _ _).ge
      | error number => exact Nat.le_trans (Nat.le_add_right 16 _) (length_message _ _ _ _ _).ge
    rw [← List.singleton_append, itemBytes_append, itemBytes_singleton, List.length_append,
      length_padded, aligned_messages, List.length_nil] at hlength
    omega

theorem routeMessages_isRecord {family : UInt8} {record : List UInt8}
    (h : record ∈ host.routeMessages family seq) : messages.IsRecord record := by
  rw [NetHost.routeMessages, List.mem_flatMap] at h
  obtain ⟨d, -, hrecord⟩ := h
  exact isRecord_of_mem_unpack hrecord

/-- The dump of the routes, from one list of messages. -/
theorem relayRouteDump_eq (host : NetHost) (max : ℕ) (seq pid : UInt32) (family : UInt8) :
    relayRouteDump host max seq pid family =
      if (relayMessages max seq pid (host.routeMessages family seq) []).1 = [] then []
      else if (relayMessages max seq pid (host.routeMessages family seq) []).2.2 then
        (relayMessages max seq pid (host.routeMessages family seq) []).1
      else nlBuildDone max seq pid
        (relayMessages max seq pid (host.routeMessages family seq) []).1 := by
  rw [relayRouteDump, NetHost.routeMessages]
  cases host.routes family seq with
  | none => rfl
  | some datagrams =>
    dsimp only
    rw [relayRounds_eq, Option.getD_some]
    generalize relayMessages max seq pid
      ((datagrams.take 64).flatMap fun d => messages.unpack d.bytes) [] = relay
    obtain ⟨out, stop, sawDone⟩ := relay
    cases out with
    | nil => rfl
    | cons b bs =>
      cases sawDone with
      | true => rfl
      | false => rfl

/-- The messages about routes. -/
theorem replyRoutes_eq (host : NetHost) (family : UInt8) (seq pid : UInt32) :
    ∃ shown last, Shown seq pid true []
        (((host.routeMessages family seq).takeWhile goesOn).map .kernel) shown ∧
      IsEnd (host.routeMessages family seq) last ∧ last.Sound ∧
      (itemBytes seq pid true (shown ++ [last])).length ≤ maxFakeNetlinkReply ∧
      (match relayRouteDump host maxFakeNetlinkReply seq pid family with
        | [] => nlBuildDone maxFakeNetlinkReply seq pid []
        | out => out) = itemBytes seq pid true (shown ++ [last]) := by
  obtain ⟨shown, hshown, hout⟩ := relayMessages_eq
    (show ∀ r ∈ host.routeMessages family seq, messages.IsRecord r from
      fun r => routeMessages_isRecord) (room_nil seq pid true)
  have hroom := hshown.room
  rw [List.nil_append] at hroom
  obtain ⟨hdone, hdoneLength⟩ := nlBuildDone_shown hroom
  have hne : ∀ last, itemBytes seq pid true (shown ++ [last]) ≠ [] := fun last =>
    itemBytes_ne_nil seq pid true (by simp)
  have hmatch : ∀ last, (match itemBytes seq pid true (shown ++ [last]) with
      | [] => nlBuildDone maxFakeNetlinkReply seq pid []
      | out => out) = itemBytes seq pid true (shown ++ [last]) := by
    intro last
    cases hbytes : itemBytes seq pid true (shown ++ [last]) with
    | nil => exact absurd hbytes (hne last)
    | cons b bs => rfl
  rw [List.nil_append, itemBytes_nil] at hout
  rw [relayRouteDump_eq]
  split at hout
  · next hsaw =>
    obtain ⟨last, hlast, hsound, hle, heq⟩ := hout
    refine ⟨shown, last, hshown, hlast, hsound, hle, ?_⟩
    rw [heq, if_neg (hne last), if_pos hsaw]
    exact hmatch last
  · next hsaw =>
    refine ⟨shown, .done, hshown, .done, trivial, hdoneLength, ?_⟩
    rw [hout, if_neg hsaw, hdone]
    by_cases hnone : shown = []
    · rw [hnone, itemBytes_nil, if_pos rfl]
      exact (nlBuildDone_shown (room_nil _ _ _)).1
    · rw [if_neg (itemBytes_ne_nil seq pid true hnone)]
      exact hmatch .done

/-- What is said fits, if the end of the dump does. -/
theorem length_said_le {items : List Item} {last : Item}
    (hshown : Shown seq pid req.dump [] items shown)
    (hlast : (itemBytes seq pid req.dump (shown ++ [last])).length ≤ maxFakeNetlinkReply)
    (hdone : req.fallback ≠ [] → last = .done) :
    (itemBytes seq pid req.dump (req.said shown last)).length ≤ maxFakeNetlinkReply := by
  have hroom := hshown.room
  have hfallback := @room_of_own seq pid req.dump _ (own_fallback req) (length_fallback_le req)
  rw [List.nil_append] at hroom
  rw [itemBytes_append, List.length_append] at hlast
  rw [maxFakeNetlinkReply] at *
  rw [Request.said, itemBytes_append, List.length_append]
  by_cases hnone : shown = []
  · rw [if_pos hnone]
    by_cases hnothing : req.fallback = []
    · rw [hnothing, itemBytes_nil, List.length_nil, Nat.zero_add]
      split
      · omega
      · exact Nat.zero_le _
    · rw [hdone hnothing]
      split
      · rw [itemBytes_singleton, length_done]
        omega
      · rw [itemBytes_nil, List.length_nil]
        omega
  · rw [if_neg hnone]
    split
    · exact hlast
    · rw [itemBytes_nil, List.length_nil]
      omega

/-- The messages for a request. -/
theorem replyTo_eq (hhost : host.Sound) (req : Request) (pid : UInt32) :
    ∃ shown last, Shown req.header.seq pid req.dump [] (host.items req) shown ∧
      IsEnd (host.relayedMessages req) last ∧ last.Sound ∧
      (itemBytes req.header.seq pid req.dump (req.said shown last)).length ≤
        maxFakeNetlinkReply ∧
      replyTo host maxFakeNetlinkReply req pid =
        itemBytes req.header.seq pid req.dump (req.said shown last) := by
  have hown : ∀ shown, Shown req.header.seq pid req.dump [] (host.items req) shown →
      (itemBytes req.header.seq pid req.dump (req.said shown .done)).length ≤
        maxFakeNetlinkReply := by
    intro shown hshown
    refine length_said_le hshown ?_ fun _ => rfl
    have hroom := hshown.room
    rw [List.nil_append] at hroom
    rw [itemBytes_concat, List.length_append, length_done]
    omega
  by_cases hlink : req.header.type = rtmGetlink
  · obtain ⟨shown, hshown, hreply⟩ := replyLinks_eq hhost hlink pid
    refine ⟨shown, .done, hshown, .done, trivial, hown shown hshown, ?_⟩
    rw [replyTo]
    rw [if_pos hlink, hreply]
  by_cases haddr : req.header.type = rtmGetaddr
  · obtain ⟨shown, hshown, hreply⟩ := replyAddrs_eq hhost hlink haddr pid
    refine ⟨shown, .done, hshown, .done, trivial, hown shown hshown, ?_⟩
    rw [replyTo]
    rw [if_neg hlink, if_pos haddr, hreply]
  have hfallback : req.fallback = if req.dump then [] else [.error 0] := by
    rw [Request.fallback, if_neg hlink, if_neg haddr]
  by_cases hroute : req.header.type = rtmGetroute ∧ req.dump = true
  · obtain ⟨shown, last, hshown, hlast, hsound, hle, hreply⟩ :=
      replyRoutes_eq host req.family req.header.seq pid
    have hrelayed : host.relayedMessages req = host.routeMessages req.family req.header.seq := by
      rw [NetHost.relayedMessages, if_pos hroute]
    have hitems : host.items req =
        ((host.routeMessages req.family req.header.seq).takeWhile goesOn).map .kernel := by
      rw [NetHost.items, if_neg hlink, if_neg haddr, hrelayed]
    rw [hroute.2, if_pos rfl] at hfallback
    have hsaid : req.said shown last = shown ++ [last] := by
      rw [Request.said, hfallback, hroute.2, if_pos rfl]
      cases shown with
      | nil => rfl
      | cons item items => rfl
    refine ⟨shown, last, ?_, hrelayed ▸ hlast, hsound, ?_, ?_⟩
    · rw [hitems, hroute.2]
      exact hshown
    · rw [hsaid, hroute.2]
      exact hle
    · rw [replyTo]
      rw [if_neg hlink, if_neg haddr, if_pos hroute.1, if_pos hroute.2, hsaid]
      rw [hroute.2]
      exact hreply
  · have hitems : host.items req = [] := by
      rw [NetHost.items, if_neg hlink, if_neg haddr, NetHost.relayedMessages, if_neg hroute]
      rfl
    have hshown : Shown req.header.seq pid req.dump [] (host.items req) [] := by
      rw [hitems]
      exact .nil (room_nil _ _ _)
    refine ⟨[], .done, hshown, .done, trivial, hown [] hshown, ?_⟩
    rw [replyTo, Request.said, hfallback]
    rw [if_neg hlink, if_neg haddr]
    cases hdump : req.dump with
    | true =>
      rw [if_neg fun h => hroute ⟨h, hdump⟩]
      exact (nlBuildDone_shown (room_nil _ _ _)).1
    | false =>
      simp only [Bool.false_eq_true, if_false, ite_self]
      exact nlBuildError_nil 0

/-- **The answer to a request is the messages of the items that it is about**, those there is
room for. -/
theorem buildFakeNetlinkReply_eq (hhost : host.Sound) (req : Request) (pid : UInt32) :
    ∃ shown last, Shown req.header.seq pid req.dump [] (host.items req) shown ∧
      IsEnd (host.relayedMessages req) last ∧ last.Sound ∧
      (itemBytes req.header.seq pid req.dump (req.answer shown last)).length ≤
        maxFakeNetlinkReply ∧
      buildFakeNetlinkReply host pid (some req) =
        itemBytes req.header.seq pid req.dump (req.answer shown last) := by
  obtain ⟨shown, last, hshown, hlast, hsound, hle, hreply⟩ := replyTo_eq hhost req pid
  refine ⟨shown, last, hshown, hlast, hsound, ?_, ?_⟩
  · rw [Request.answer]
    split
    · exact Nat.le_trans (Nat.le_add_right _ 256)
        (room_of_own (.singleton trivial (by simp)) (by decide))
    · exact hle
  · have hnil : (itemBytes req.header.seq pid req.dump (req.said shown last) = []) ↔
        req.said shown last = [] := by
      refine ⟨fun h => ?_, fun h => by rw [h, itemBytes_nil]⟩
      by_contra hne
      exact itemBytes_ne_nil _ _ _ hne h
    rw [buildFakeNetlinkReply, Option.map_some, Option.getD_some, hreply, Request.answer]
    by_cases hsaid : req.said shown last = []
    · have hdump : req.dump = false := by
        rw [Request.said] at hsaid
        cases hdump : req.dump with
        | true =>
          rw [hdump, if_pos rfl] at hsaid
          exact absurd hsaid (by simp)
        | false => rfl
      rw [if_pos (hnil.2 hsaid), if_pos hsaid, hdump]
      exact nlBuildError_nil (-22)
    · rw [if_neg (mt hnil.1 hsaid), if_neg hsaid]

end NeoProot.Netlink
