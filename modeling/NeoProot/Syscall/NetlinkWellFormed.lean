import NeoProot.Syscall.NetlinkAnswers

/-!
# What a receiver finds in an answer

An answer is a sequence of whole messages with the number of the request, their attributes are
whole, and only the last message of a dump is its end.  Each link that an answer is about is
there once.

## Main results

* `wellFormed_buildFakeNetlinkReply` — every answer is well formed.
* `unpack_buildFakeNetlinkReply` — what an answer says.
-/

namespace NeoProot.Netlink
open LittleEndian RecordFormat

variable {host : NetHost} {target : Option (UInt32 × List UInt8)} {ifas : List IfAddrs}
  {item last : Item} {req : Request} {items shown : List Item} {pid : UInt32}

/-! ### The links of a host -/

/-- The entries that have a name. -/
def namedEntries (ifas : List IfAddrs) : List (List UInt8 × IfAddrs) :=
  ifas.filterMap fun ifa => ifa.name.map fun name => (name, ifa)

/-- The interfaces: of the entries with one name, the first. -/
def interfacesOf (ifas : List IfAddrs) : List (List UInt8 × IfAddrs) :=
  (namedEntries ifas).eraseDupsBy fun a b => a.1 == b.1

/-- A link is asked for. -/
def asked (target : Option (UInt32 × List UInt8)) (l : Link) : Bool :=
  !(target.any fun target => !wanted target l.name l.ifindex)

/-- All links, or the first that is asked for. -/
def NetHost.linksOf (host : NetHost) (target : Option (UInt32 × List UInt8))
    (interfaces : List (List UInt8 × IfAddrs)) : List Link :=
  let links := (interfaces.map fun i => host.link i.2 i.1).filter (asked target)
  if target.isNone then links else links.take 1

theorem NetHost.linksOf_cons (host : NetHost) (target : Option (UInt32 × List UInt8))
    (name : List UInt8) (ifa : IfAddrs) (interfaces : List (List UInt8 × IfAddrs)) :
    host.linksOf target ((name, ifa) :: interfaces) =
      if target.any fun target => !wanted target name (host.link ifa name).ifindex then
        host.linksOf target interfaces
      else if target.isNone then host.link ifa name :: host.linksOf target interfaces
      else [host.link ifa name] := by
  have hasked : asked target (host.link ifa name) =
      !(target.any fun target => !wanted target name (host.link ifa name).ifindex) := by
    rw [asked, host.name_link]
  rw [NetHost.linksOf, List.map_cons, List.filter_cons, hasked]
  cases target.any fun target => !wanted target name (host.link ifa name).ifindex with
  | true => rfl
  | false =>
    rw [Bool.not_false, if_pos rfl, if_neg Bool.false_ne_true]
    cases hdump : target.isNone with
    | true =>
      rw [NetHost.linksOf, hdump]
      rfl
    | false => rfl

/-- Up to 64 names can be told to have been seen. -/
theorem NetHost.links_eq_of_seen (hnamed : ∀ ifa ∈ ifas, ∀ name ∈ ifa.name, Named name)
    {names : List (List UInt8)} (hfew : names.length ≤ 64)
    (hnames : ∀ i ∈ namedEntries ifas, i.1 ∈ names) {seen : List (List UInt8)} (hnodup : seen.Nodup)
    (hseen : seen ⊆ names) :
    host.links target ifas seen =
      host.linksOf target (((namedEntries ifas).filter fun i => i.1 ∉ seen).eraseDupsBy
        fun a b => a.1 == b.1) := by
  induction ifas generalizing seen with
  | nil =>
    rw [NetHost.links]
    cases target with
    | none => rfl
    | some target => rfl
  | cons ifa rest ih =>
    have hrest := fun ifa' h => hnamed ifa' (List.mem_cons_of_mem ifa h)
    rw [NetHost.links]
    cases hname : ifa.name with
    | none =>
      have hentries : namedEntries (ifa :: rest) = namedEntries rest := by
        rw [namedEntries, List.filterMap_cons, hname]
        rfl
      rw [hentries] at hnames ⊢
      exact ih hrest hnames hnodup hseen
    | some name =>
      have hshort : name.length < 16 := hnamed ifa List.mem_cons_self name hname
      have htake : name.take ifnamsiz = name := List.take_of_length_le (Nat.le_of_lt hshort)
      have htake' : name.take (ifnamsiz - 1) = name :=
        List.take_of_length_le (Nat.le_of_lt_succ hshort)
      have hentries : namedEntries (ifa :: rest) = (name, ifa) :: namedEntries rest := by
        rw [namedEntries, List.filterMap_cons, hname]
        rfl
      rw [hentries] at hnames ⊢
      have hmem : name ∈ names := hnames (name, ifa) List.mem_cons_self
      have hnames' := fun i hi => hnames i (List.mem_cons_of_mem _ hi)
      dsimp only
      have hdup : dup seen name = decide (name ∈ seen) := by rw [dup, htake]
      rw [hdup, htake', List.filter_cons]
      by_cases hin : name ∈ seen
      · rw [if_pos (decide_eq_true hin), if_neg (by simpa using hin)]
        exact ih hrest hnames' hnodup hseen
      have hnodup' : (seen ++ [name]).Nodup :=
        List.nodup_append.2 ⟨hnodup, List.nodup_singleton name, by
          intro a ha b hb heq
          rw [List.mem_singleton.1 hb] at heq
          exact hin (heq ▸ ha)⟩
      have hseen' : seen ++ [name] ⊆ names :=
        List.append_subset.2 ⟨hseen, List.cons_subset.2 ⟨hmem, List.nil_subset _⟩⟩
      have hroom : seen.length < 64 := by
        have hle := (List.subperm_of_subset hnodup' hseen').length_le
        rw [List.length_append, List.length_singleton] at hle
        omega
      have hfilter : ((namedEntries rest).filter fun i => i.1 ∉ seen).filter
          (fun b => (b.1 == name) = false) =
          (namedEntries rest).filter fun i => i.1 ∉ seen ++ [name] := by
        rw [List.filter_filter]
        apply List.filter_congr
        intro i _
        simp [and_comm]
      have hkept : (decide ¬name ∈ seen) = true := decide_eq_true hin
      rw [if_neg (by simpa using hin), if_pos hkept, if_pos hroom, List.eraseDupsBy_cons, hfilter,
        NetHost.linksOf_cons, ih hrest hnames' hnodup' hseen']

/-- **Every interface is there once**, if there are at most 64. -/
theorem NetHost.links_eq (hnamed : ∀ ifa ∈ ifas, ∀ name ∈ ifa.name, Named name)
    (hfew : ((namedEntries ifas).map Prod.fst).dedup.length ≤ 64) :
    host.links target ifas [] = host.linksOf target (interfacesOf ifas) := by
  have hnames : ∀ i ∈ namedEntries ifas, i.1 ∈ ((namedEntries ifas).map Prod.fst).dedup :=
    fun i hi => List.mem_dedup.2 (List.mem_map_of_mem hi)
  rw [NetHost.links_eq_of_seen hnamed hfew hnames List.nodup_nil (List.nil_subset _), interfacesOf]
  congr 2
  simp

/-! ### The items of an answer -/

theorem NetHost.named_links (hnamed : ∀ ifa ∈ ifas, ∀ name ∈ ifa.name, Named name)
    {seen : List (List UInt8)} {l : Link} (h : l ∈ host.links target ifas seen) : Named l.name := by
  induction ifas generalizing seen with
  | nil => cases h
  | cons ifa rest ih =>
    have hrest := fun ifa' h => hnamed ifa' (List.mem_cons_of_mem ifa h)
    rw [NetHost.links] at h
    cases hname : ifa.name with
    | none =>
      rw [hname] at h
      exact ih hrest h
    | some name =>
      have hlink : Named (host.link ifa name).name := by
        rw [host.name_link]
        exact hnamed ifa List.mem_cons_self name hname
      rw [hname] at h
      dsimp only at h
      split_ifs at h
      all_goals first
        | exact ih hrest h
        | rw [List.mem_singleton.1 h]; exact hlink
        | skip
      all_goals
        cases List.mem_cons.1 h with
        | inl heq =>
          rw [heq]
          exact hlink
        | inr hmem => exact ih hrest hmem

/-- A message that is made here ends a dump if it is made for that. -/
theorem Item.type_ne_done (hown : ∀ r, item ≠ .kernel r) (hdone : item ≠ .done) :
    item.type ≠ nlmsgDone := by
  cases item with
  | kernel record => exact absurd rfl (hown record)
  | done => exact absurd rfl hdone
  | link l => exact show rtmNewlink ≠ nlmsgDone by decide
  | addr a => exact show rtmNewaddr ≠ nlmsgDone by decide
  | error number => exact show nlmsgError ≠ nlmsgDone by decide

/-- What the host has is whole, and does not end a dump. -/
theorem NetHost.items_sound (hhost : host.Sound) (h : item ∈ host.items req) :
    item.Sound ∧ item.type ≠ nlmsgDone := by
  rw [NetHost.items] at h
  split at h
  · obtain ⟨l, hl, rfl⟩ := List.mem_map.1 h
    exact ⟨NetHost.named_links hhost.named hl, Item.type_ne_done (by simp) (by simp)⟩
  split at h
  · obtain ⟨a, ha, rfl⟩ := List.mem_map.1 h
    rw [NetHost.addrs, List.mem_filter, List.mem_filterMap] at ha
    obtain ⟨⟨ifa, hifa, haddr⟩, -⟩ := ha
    exact ⟨NetHost.named_address (hhost.named ifa hifa) haddr,
      Item.type_ne_done (by simp) (by simp)⟩
  · obtain ⟨record, hrecord, rfl⟩ := List.mem_map.1 h
    have hgoes := List.mem_takeWhile_imp hrecord
    have hmem := (List.takeWhile_sublist goesOn).subset hrecord
    rw [NetHost.relayedMessages] at hmem
    split at hmem
    · exact ⟨routeMessages_isRecord hmem, by simpa [goesOn, Item.type] using hgoes⟩
    · cases hmem

theorem done_notMem_fallback (req : Request) : Item.done ∉ req.fallback := by
  rw [Request.fallback]
  split_ifs <;> simp

/-- What is said is whole, and only the end of a dump ends it. -/
theorem said_sound (hhost : host.Sound) (hshown : shown <+: host.items req) :
    ∀ item ∈ (if shown = [] then req.fallback else shown), item.Sound ∧ item.type ≠ nlmsgDone := by
  intro item hitem
  split at hitem
  · obtain ⟨hsound, hown⟩ := own_fallback req item hitem
    refine ⟨hsound, Item.type_ne_done hown ?_⟩
    rintro rfl
    exact done_notMem_fallback req hitem
  · exact NetHost.items_sound hhost (hshown.subset hitem)

/-! ### The receiver -/

/-- A receiver finds the messages of the items. -/
theorem unpack_itemBytes (seq pid : UInt32) (multi : Bool) (h : ∀ item ∈ items, item.Sound) :
    messages.unpack (itemBytes seq pid multi items) = items.map (Item.bytes seq pid multi) := by
  apply unpack_pack
  intro r hr
  obtain ⟨item, hitem, rfl⟩ := List.mem_map.1 hr
  exact Item.isRecord_bytes (h item hitem) seq pid multi

/-- The size of what stands between the header of a message and its attributes. -/
def bodySize (type : UInt16) : ℕ := if type = rtmNewlink then 16 else 8

/-- The attributes of a message. -/
def attributesOf (record : List UInt8) : List UInt8 :=
  record.drop (nlmsgHdrlen + bodySize (headerOf record).type)

/-- A receiver can read the answer to the end. -/
structure WellFormed (req : Request) (pid : UInt32) (reply : List UInt8) : Prop where
  nonempty : messages.unpack reply ≠ []
  room : reply.length ≤ maxFakeNetlinkReply
  whole : messages.pack (messages.unpack reply) = reply
  answers : ∀ r ∈ messages.unpack reply,
    (headerOf r).seq = req.header.seq ∧ (headerOf r).pid = pid
  attributes : req.header.type ≠ rtmGetroute → ∀ r ∈ messages.unpack reply,
    (headerOf r).type = rtmNewlink ∨ (headerOf r).type = rtmNewaddr →
      attributes.pack (attributes.unpack (attributesOf r)) = attributesOf r
  ending : if req.dump then
      ∃ front last, messages.unpack reply = front ++ [last] ∧
        (headerOf last).type = nlmsgDone ∧ ∀ r ∈ front, (headerOf r).type ≠ nlmsgDone
    else ∀ r ∈ messages.unpack reply, (headerOf r).type ≠ nlmsgDone

theorem pack_unpack_attrBytes {as : List (UInt16 × List UInt8)} (h : ∀ a ∈ as, a.2.length < 1024) :
    attributes.pack (attributes.unpack (attrBytes as)) = attrBytes as := by
  rw [unpack_attrBytes h, attrBytes]

theorem drop_message (type flags : UInt16) (seq pid : UInt32) (front rest : List UInt8) :
    (message type flags seq pid (front ++ rest)).drop (nlmsgHdrlen + front.length) = rest := by
  rw [message, ← List.append_assoc]
  apply List.drop_left'
  rw [List.length_append, NlMsgHdr.length_encode]

/-- The attributes of a message that is made here are whole. -/
theorem pack_unpack_attributesOf (hsound : item.Sound) (hown : ∀ r, item ≠ .kernel r)
    (seq pid : UInt32) (multi : Bool) (htype : item.type = rtmNewlink ∨ item.type = rtmNewaddr) :
    attributes.pack (attributes.unpack (attributesOf (item.bytes seq pid multi))) =
      attributesOf (item.bytes seq pid multi) := by
  rw [attributesOf, (item.headerOf_bytes seq pid multi).1]
  cases item with
  | kernel record => exact absurd rfl (hown record)
  | done => exact absurd htype (show ¬ (nlmsgDone = rtmNewlink ∨ nlmsgDone = rtmNewaddr) by decide)
  | error number =>
    exact absurd htype (show ¬ (nlmsgError = rtmNewlink ∨ nlmsgError = rtmNewaddr) by decide)
  | link l =>
    have hdrop : ((Item.link l).bytes seq pid multi).drop (nlmsgHdrlen + 16) =
        attrBytes l.fields := by
      rw [← l.length_ifinfomsg]
      exact drop_message _ _ _ _ _ _
    have hsize : bodySize (Item.link l).type = 16 := rfl
    rw [hsize, hdrop]
    apply pack_unpack_attrBytes
    intro a ha
    have hle := Link.length_of_mem_fields hsound ha
    omega
  | addr a =>
    have hdrop : ((Item.addr a).bytes seq pid multi).drop (nlmsgHdrlen + 8) =
        attrBytes a.fields := by
      rw [← a.length_ifaddrmsg]
      exact drop_message _ _ _ _ _ _
    have hsize : bodySize (Item.addr a).type = 8 := rfl
    rw [hsize, hdrop]
    apply pack_unpack_attrBytes
    intro b hb
    have hle := Addr.length_of_mem_fields hsound hb
    omega

/-- What is answered: the front, and then the end of a dump. -/
theorem answer_cases (hhost : host.Sound) (hshown : shown <+: host.items req) (last : Item) :
    ∃ front, (∀ item ∈ front, item.Sound ∧ item.type ≠ nlmsgDone) ∧
      if req.dump then req.answer shown last = front ++ [last]
      else req.answer shown last = front ∧ front ≠ [] := by
  have hsaid := said_sound hhost hshown
  cases hdump : req.dump with
  | true =>
    refine ⟨_, hsaid, ?_⟩
    rw [if_pos rfl, Request.answer, Request.said, hdump, if_pos rfl, if_neg (by simp)]
  | false =>
    simp only [Request.answer, Request.said, hdump, Bool.false_eq_true, if_false, List.append_nil]
    by_cases hnone : (if shown = [] then req.fallback else shown) = []
    · refine ⟨[.error (-22)], ?_, ?_⟩
      · intro item hitem
        rw [List.mem_singleton.1 hitem]
        exact ⟨trivial, Item.type_ne_done (by simp) (by simp)⟩
      · rw [if_pos hnone]
        exact ⟨rfl, by simp⟩
    · refine ⟨_, hsaid, ?_⟩
      rw [if_neg hnone]
      exact ⟨rfl, hnone⟩

theorem IsEnd.type_eq {records : List (List UInt8)} (h : IsEnd records last) :
    last.type = nlmsgDone := by
  cases h with
  | done => rfl
  | kernel record hmem htype => exact htype

/-- What the host has of anything but routes is made here. -/
theorem NetHost.own_items (hhost : host.Sound) (hroute : req.header.type ≠ rtmGetroute) :
    Own (host.items req) := by
  intro item hitem
  refine ⟨(NetHost.items_sound hhost hitem).1, ?_⟩
  have hnone : host.relayedMessages req = [] := by
    rw [NetHost.relayedMessages, if_neg fun h => hroute h.1]
  rw [NetHost.items, hnone] at hitem
  split at hitem
  · obtain ⟨l, -, rfl⟩ := List.mem_map.1 hitem
    simp
  split at hitem
  · obtain ⟨a, -, rfl⟩ := List.mem_map.1 hitem
    simp
  · cases hitem

/-- Only in the answers about routes are there messages of the kernel. -/
theorem answer_own (hhost : host.Sound) (hroute : req.header.type ≠ rtmGetroute)
    (hshown : shown <+: host.items req) (hlast : IsEnd (host.relayedMessages req) last) :
    ∀ item ∈ req.answer shown last, ∀ r, item ≠ .kernel r := by
  have hnone : host.relayedMessages req = [] := by
    rw [NetHost.relayedMessages, if_neg fun h => hroute h.1]
  have hfront : ∀ item ∈ (if shown = [] then req.fallback else shown), ∀ r, item ≠ .kernel r := by
    intro item hitem
    split at hitem
    · exact (own_fallback req item hitem).2
    · exact (NetHost.own_items hhost hroute item (hshown.subset hitem)).2
  have hsaid : ∀ item ∈ req.said shown last, ∀ r, item ≠ .kernel r := by
    intro item hitem
    rw [Request.said, List.mem_append] at hitem
    cases hitem with
    | inl hleft => exact hfront item hleft
    | inr hright =>
      split at hright
      · rw [List.mem_singleton.1 hright]
        cases hlast with
        | done => simp
        | kernel record hmem htype =>
          rw [hnone] at hmem
          cases hmem
      · cases hright
  intro item hitem
  rw [Request.answer] at hitem
  split at hitem
  · rw [List.mem_singleton.1 hitem]
    simp
  · exact hsaid item hitem

theorem answer_sound (hhost : host.Sound) (hshown : shown <+: host.items req)
    (hsound : last.Sound) : ∀ item ∈ req.answer shown last, item.Sound := by
  intro item hitem
  obtain ⟨front, hfront, hanswer⟩ := answer_cases hhost hshown last
  split at hanswer
  · rw [hanswer, List.mem_append, List.mem_singleton] at hitem
    cases hitem with
    | inl hleft => exact (hfront item hleft).1
    | inr hright => exact hright ▸ hsound
  · rw [hanswer.1] at hitem
    exact (hfront item hitem).1

/-- **Every answer is well formed.** -/
theorem wellFormed_buildFakeNetlinkReply {host : NetHost} (hhost : host.Sound) (req : Request)
    (pid : UInt32) : WellFormed req pid (buildFakeNetlinkReply host pid (some req)) := by
  obtain ⟨shown, last, hshown, hlast, hsound, hle, hreply⟩ :=
    buildFakeNetlinkReply_eq hhost req pid
  obtain ⟨front, hfront, hanswer⟩ := answer_cases hhost hshown.initial last
  have hwhole := answer_sound hhost hshown.initial hsound
  have hunpack := unpack_itemBytes req.header.seq pid req.dump hwhole
  have htypes : ∀ item ∈ front,
      (headerOf (item.bytes req.header.seq pid req.dump)).type ≠ nlmsgDone := fun item hitem => by
    rw [(item.headerOf_bytes _ _ _).1]
    exact (hfront item hitem).2
  rw [hreply]
  constructor
  · rw [hunpack]
    intro hnil
    rw [List.map_eq_nil_iff] at hnil
    split at hanswer
    · rw [hnil] at hanswer
      exact absurd hanswer (by simp)
    · exact hanswer.2 (hanswer.1 ▸ hnil)
  · exact hle
  · rw [hunpack]
    rfl
  · intro r hr
    rw [hunpack] at hr
    obtain ⟨item, -, rfl⟩ := List.mem_map.1 hr
    exact (item.headerOf_bytes _ _ _).2
  · intro hroute r hr htype
    rw [hunpack] at hr
    obtain ⟨item, hitem, rfl⟩ := List.mem_map.1 hr
    rw [(item.headerOf_bytes _ _ _).1] at htype
    exact pack_unpack_attributesOf (hwhole item hitem)
      (answer_own hhost hroute hshown.initial hlast item hitem) _ _ _ htype
  · rw [hunpack]
    cases hdump : req.dump with
    | true =>
      rw [hdump] at htypes
      rw [hdump, if_pos rfl] at hanswer
      rw [if_pos rfl, hanswer, List.map_append, List.map_singleton]
      refine ⟨_, _, rfl, ?_, ?_⟩
      · rw [(last.headerOf_bytes _ _ _).1]
        exact hlast.type_eq
      · intro r hr
        obtain ⟨item, hitem, rfl⟩ := List.mem_map.1 hr
        exact htypes item hitem
    | false =>
      rw [hdump] at htypes
      rw [hdump, if_neg Bool.false_ne_true] at hanswer
      rw [if_neg Bool.false_ne_true, hanswer.1]
      intro r hr
      obtain ⟨item, hitem, rfl⟩ := List.mem_map.1 hr
      exact htypes item hitem

/-- A host with `lo` and `wlan0`, which answers no `ioctl`. -/
def phone : NetHost where
  interfaces := some
    [⟨some [108, 111], 0x49, some (.inet #v[127, 0, 0, 1] (some #v[255, 0, 0, 0]))⟩,
      ⟨some [119, 108, 97, 110, 48], 0x1043, some (.packet 3 1 6 #v[2, 0, 0, 0, 0, 9, 0, 0])⟩,
      ⟨some [108, 111], 0x49, none⟩]
  ifNametoindex name := if name = [108, 111] then 1 else 3
  socket := false
  mtu _ := none
  hwaddr _ := none
  routes _ _ := none

/-- A request for all links. -/
def dumpLinks : Request where
  bytes := (NlMsgHdr.mk 20 rtmGetlink nlmFDump 7 0).encode ++ [0, 0, 0, 0]
  long := by decide

theorem sound_phone : phone.Sound := by
  intro ifas hifas
  cases hifas
  decide

theorem wellFormed_phone :
    phone.Sound ∧ WellFormed dumpLinks 42 (buildFakeNetlinkReply phone 42 (some dumpLinks)) :=
  ⟨sound_phone, wellFormed_buildFakeNetlinkReply sound_phone dumpLinks 42⟩

/-! ### What it says -/

/-- What the host has of what is asked for, each interface once. -/
def NetHost.content (host : NetHost) (req : Request) : List Item :=
  if req.header.type = rtmGetlink then
    (host.linksOf (if req.dump then none else some req.linkTarget)
      (interfacesOf (host.interfaces.getD []))).map .link
  else host.items req

/-- There are at most 64 interfaces. -/
def NetHost.Few (host : NetHost) : Prop :=
  ((namedEntries (host.interfaces.getD [])).map Prod.fst).dedup.length ≤ 64

theorem NetHost.items_eq_content (hhost : host.Sound) (hfew : host.Few) (req : Request) :
    host.items req = host.content req := by
  rw [NetHost.content]
  split
  · next hlink => rw [NetHost.items, if_pos hlink, NetHost.links_eq hhost.named hfew]
  · rfl

/-- What fits is shown. -/
theorem Shown.eq_of_fits {seq : UInt32} {multi : Bool} (h : Shown seq pid multi [] items shown)
    (hfits : (itemBytes seq pid multi items).length + 256 ≤ maxFakeNetlinkReply) :
    shown = items := by
  obtain ⟨left, hleft⟩ := h.initial
  cases left with
  | nil => rwa [List.append_nil] at hleft
  | cons next left =>
    have hsplit : shown ++ [next] ++ left = items := by
      rw [List.append_assoc, List.singleton_append, hleft]
    have hfull := h.full next ⟨left, hsplit⟩
    rw [List.nil_append] at hfull
    rw [← hsplit, itemBytes_append, List.length_append] at hfits
    omega

/-- The first message that is made here is shown. -/
theorem Shown.eq_nil {seq : UInt32} {multi : Bool} (hown : Own items)
    (h : Shown seq pid multi [] items []) : items = [] := by
  cases items with
  | nil => rfl
  | cons item items =>
    have hfull := h.full item (List.cons_prefix_cons.2 ⟨rfl, List.nil_prefix⟩)
    obtain ⟨hsound, hmade⟩ := hown item List.mem_cons_self
    have hroom : (itemBytes seq pid multi [item]).length + 256 ≤ maxFakeNetlinkReply :=
      room_of_own (.singleton hsound hmade) (by simp)
    rw [List.nil_append, List.nil_append] at hfull
    omega

/-- **Nothing is made up if the host has something.** -/
theorem Shown.fallback_eq_nil (hhost : host.Sound)
    (h : Shown req.header.seq pid req.dump [] (host.items req) []) (hsome : host.items req ≠ []) :
    req.fallback = [] := by
  by_cases hroute : req.header.type = rtmGetroute
  · have hlink : req.header.type ≠ rtmGetlink := by rw [hroute]; decide
    have haddr : req.header.type ≠ rtmGetaddr := by rw [hroute]; decide
    cases hdump : req.dump with
    | true => rw [Request.fallback, if_neg hlink, if_neg haddr, hdump, if_pos rfl]
    | false =>
      refine absurd ?_ hsome
      rw [NetHost.items, if_neg hlink, if_neg haddr, NetHost.relayedMessages, hdump,
        if_neg fun h => Bool.false_ne_true h.2]
      rfl
  · exact absurd (h.eq_nil (NetHost.own_items hhost hroute)) hsome

/-- **An answer says what the host has, from the first on**, and all of it if that fits; what is
made up is said only if the host has nothing. -/
theorem unpack_buildFakeNetlinkReply {host : NetHost} (hhost : host.Sound) (hfew : host.Few)
    (req : Request) (pid : UInt32) :
    ∃ shown last, shown <+: host.content req ∧
      ((itemBytes req.header.seq pid req.dump (host.content req)).length + 256 ≤
        maxFakeNetlinkReply → shown = host.content req) ∧
      (shown = [] → host.content req ≠ [] → req.fallback = []) ∧
      IsEnd (host.relayedMessages req) last ∧
      messages.unpack (buildFakeNetlinkReply host pid (some req)) =
        (req.answer shown last).map (Item.bytes req.header.seq pid req.dump) := by
  obtain ⟨shown, last, hshown, hlast, hsound, -, hreply⟩ := buildFakeNetlinkReply_eq hhost req pid
  rw [← NetHost.items_eq_content hhost hfew]
  refine ⟨shown, last, hshown.initial, hshown.eq_of_fits, ?_, hlast, ?_⟩
  · rintro rfl hsome
    exact hshown.fallback_eq_nil hhost hsome
  · rw [hreply]
    apply unpack_itemBytes
    exact answer_sound hhost hshown.initial hsound

theorem few_phone : phone.Few :=
  Nat.le_trans (List.dedup_sublist _).length_le (by decide)

theorem unpack_phone :
    phone.Sound ∧ phone.Few ∧
    ∃ shown last, shown <+: phone.content dumpLinks ∧
      ((itemBytes dumpLinks.header.seq 42 dumpLinks.dump (phone.content dumpLinks)).length + 256 ≤
        maxFakeNetlinkReply → shown = phone.content dumpLinks) ∧
      (shown = [] → phone.content dumpLinks ≠ [] → dumpLinks.fallback = []) ∧
      IsEnd (phone.relayedMessages dumpLinks) last ∧
      messages.unpack (buildFakeNetlinkReply phone 42 (some dumpLinks)) =
        (dumpLinks.answer shown last).map
          (Item.bytes dumpLinks.header.seq 42 dumpLinks.dump) :=
  ⟨sound_phone, few_phone, unpack_buildFakeNetlinkReply sound_phone few_phone dumpLinks 42⟩

end NeoProot.Netlink
