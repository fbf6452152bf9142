import NeoProot.Path.Dirfd
import NeoProot.Tracee.MemExact
import NeoProot.Lib.LittleEndian

/-!
# Ports of the first thousand

A guest without privileges cannot bind a privileged port.  The `port_switch` extension
adds a number to it, in the address that the guest passes: the address is modified in the
memory of the guest, where the kernel reads it.

## Main definitions

* `getPortAddition` — the number, from `PROOT_PORT_ADD`.
* `calcOffsetPort` — the port that replaces a privileged one.
* `portSwitchCallback` — a call of the guest.
* `run` — calls, between which the guest changes its memory.
* `Consistent` — what the ports of such calls have to do with each other.
-/

namespace NeoProot.PortSwitch
open Mem PagedMemory

variable {addition port : ℕ} {new : List UInt8}

/-! ### The number and the ports -/

/-- `PORT_THRESHOLD`. -/
def portThreshold : ℕ := 1024

/-- `PORT_ADDITION`. -/
def portAddition : ℕ := 2000

/-- `get_port_addition`, for a value of `PROOT_PORT_ADD`. -/
def getPortAddition (env : Option CStr) : ℕ :=
  match env with
  | none => portAddition
  | some env =>
    if env = [] then portAddition
    else
      match strtolWhole env with
      | none => portAddition
      | some value => if value < 0 ∨ 65535 < value then portAddition else value.toNat

/-- `ntohs`, of the two bytes in memory. -/
def ntohs : List UInt8 → ℕ
  | [high, low] => 256 * high.toNat + low.toNat
  | _ => 0

/-- `htons`, of the low sixteen bits. -/
def htons (port : ℕ) : List UInt8 := [UInt8.ofNat (port / 256), UInt8.ofNat port]

/-- `calc_offset_port`. -/
def calcOffsetPort (addition : ℕ) (originalPort : List UInt8) : List UInt8 :=
  let port := ntohs originalPort
  if 0 < port ∧ port < portThreshold then htons (port + addition) else originalPort

/-! ### One call -/

/-- What comes of a call: the memory of the guest, the status, and the two ports that
are printed. -/
structure Handled where
  memory : TraceeMemory
  status : Except Errno Unit
  notice : Option (ℕ × ℕ)

section

variable (access : Access) (addition : ℕ) (m : TraceeMemory)

/-- An address of so many bytes, with its port behind two bytes. -/
def modifyPort (size addrPtr : ℕ) (isBind : Bool) : Handled :=
  match readData access m addrPtr size with
  | none => ⟨m, .error .eio, none⟩
  | some sockaddr =>
    let oldPort := (sockaddr.drop 2).take 2
    let newPort := calcOffsetPort addition oldPort
    let notice := if isBind ∧ newPort ≠ oldPort then some (ntohs oldPort, ntohs newPort) else none
    match writeData access m addrPtr (sockaddr.take 2 ++ newPort ++ sockaddr.drop 4) with
    | (m', true) => ⟨m', .ok (), notice⟩
    | (m', false) => ⟨m', .error .eio, notice⟩

/-- `modify_ipv4_port`. -/
def modifyIpv4Port : ℕ → Bool → Handled := modifyPort access addition m 16

/-- `modify_ipv6_port`. -/
def modifyIpv6Port : ℕ → Bool → Handled := modifyPort access addition m 28

/-- The calls of the extension, and another one. -/
inductive Sysnum
  | bind | connect | sendto | other
  deriving DecidableEq, Repr

/-- A call of the guest: two of its arguments. -/
structure SocketCall where
  sysnum : Sysnum
  sysarg2 : ℕ
  sysarg5 : ℕ

/-- Where the address of a call is. -/
def SocketCall.addrPtr (call : SocketCall) : ℕ :=
  if call.sysnum = .sendto then call.sysarg5 else call.sysarg2

/-- `AF_INET`. -/
def afInet : ℕ := 2

/-- `AF_INET6`. -/
def afInet6 : ℕ := 10

/-- `handle_standard_socketcall`. -/
def handleStandardSocketcall (call : SocketCall) : Handled :=
  let isBind := decide (call.sysnum = .bind)
  if call.sysnum = .sendto ∧ call.addrPtr = 0 then ⟨m, .ok (), none⟩
  else
    match readData access m call.addrPtr 2 with
    | none => ⟨m, .error .eio, none⟩
    | some family =>
      if LittleEndian.decode family = afInet then
        modifyIpv4Port access addition m call.addrPtr isBind
      else if LittleEndian.decode family = afInet6 then
        modifyIpv6Port access addition m call.addrPtr isBind
      else ⟨m, .ok (), none⟩

/-- `port_switch_callback` at `SYSCALL_ENTER_END`. -/
def portSwitchCallback (call : SocketCall) : Handled :=
  match call.sysnum with
  | .other => ⟨m, .ok (), none⟩
  | _ => handleStandardSocketcall access addition m call

end

/-! ### Runs -/

/-- What happens: the guest changes its memory, or makes a call. -/
inductive Event
  | guest (m : TraceeMemory)
  | call (c : SocketCall)

variable {events : List Event}

/-- A call of a run, with the memory in front of it and what came of it. -/
structure Entry where
  call : SocketCall
  before : TraceeMemory
  after : Handled

variable {e : Entry}

/-- The calls of a run. -/
def run (access : Access) (addition : ℕ) : TraceeMemory → List Event → List Entry
  | _, [] => []
  | _, .guest m :: events => run access addition m events
  | m, .call c :: events =>
    let after := portSwitchCallback access addition m c
    ⟨c, m, after⟩ :: run access addition after.memory events

/-- The port in the address of a call: nothing, if it is no call of the extension or the
address is of another family. -/
def portOf (m : TraceeMemory) (call : SocketCall) : Option ℕ :=
  if call.sysnum = .other ∨ call.sysnum = .sendto ∧ call.addrPtr = 0 then none
  else
    let family := LittleEndian.decode (m.values call.addrPtr 2)
    if family = afInet ∨ family = afInet6 then some (ntohs (m.values (call.addrPtr + 2) 2))
    else none

/-- The port that the guest asks for. -/
def Entry.requested (e : Entry) : Option ℕ := portOf e.before e.call

/-- The port that the kernel is given. -/
def Entry.used (e : Entry) : Option ℕ := portOf e.after.memory e.call

/-- The port is privileged. -/
def Privileged (port : ℕ) : Prop := 0 < port ∧ port < portThreshold

/-- The number makes another port of a privileged one: it is not privileged, and a port. -/
def Redirectable (addition port : ℕ) : Prop :=
  Privileged port ∧ portThreshold ≤ port + addition ∧ port + addition < 2 ^ 16

/-- The call is made. -/
def Entry.Made (e : Entry) : Prop := e.after.status = .ok ()

/-- The buffer is used again: nobody but the extension changes the family and the port in
it, whatever else happens. -/
def Reuses (access : Access) (addition buffer : ℕ) : TraceeMemory → List Event → Prop
  | _, [] => True
  | m, .guest m' :: events =>
    m'.values buffer 4 = m.values buffer 4 ∧ Reuses access addition buffer m' events
  | m, .call c :: events =>
    (c.addrPtr = buffer ∨ c.addrPtr + 4 ≤ buffer ∨ buffer + 4 ≤ c.addrPtr) ∧
      Reuses access addition buffer (portSwitchCallback access addition m c).memory events

/-- The ports of a run: those that the guest asks for, and those that the kernel is given. -/
structure Consistent (access : Access) (addition : ℕ) (m : TraceeMemory) (events : List Event) :
    Prop where
  redirected : ∀ e ∈ run access addition m events, e.Made → ∀ port, e.requested = some port →
    Redirectable addition port → e.used = some (port + addition)
  injective : ∀ e ∈ run access addition m events, ∀ e' ∈ run access addition m events,
    e.Made → e'.Made → ∀ port port', e.requested = some port → e'.requested = some port' →
      Redirectable addition port → Redirectable addition port' →
        (e.used = e'.used ↔ port = port')
  reused : ∀ buffer port, Reuses access addition buffer m events →
    ntohs (m.values (buffer + 2) 2) = port → Redirectable addition port →
      ∀ e ∈ run access addition m events, e.Made → e.call.addrPtr = buffer →
        ∀ used, e.used = some used → used = port + addition
  left : ∀ e ∈ run access addition m events,
    ¬ (e.Made ∧ ∃ port, e.requested = some port ∧ Privileged port) → e.after.memory = e.before
  elsewhere : ∀ e ∈ run access addition m events, Within (e.before) e.after.memory
    (e.call.addrPtr + 2) 2

/-! ### The ports -/

theorem ntohs_htons (h : port < 2 ^ 16) : ntohs (htons port) = port := by
  have hhigh : (UInt8.ofNat (port / 256)).toNat = port / 256 % 2 ^ 8 := UInt8.toNat_ofNat'
  have hlow : (UInt8.ofNat port).toNat = port % 2 ^ 8 := UInt8.toNat_ofNat'
  rw [htons, ntohs, hhigh, hlow]
  omega

theorem length_calcOffsetPort (addition : ℕ) {port : List UInt8} (h : port.length = 2) :
    (calcOffsetPort addition port).length = 2 := by
  rw [calcOffsetPort]
  split
  · rfl
  · exact h

/-- A port that is not privileged is left as it is. -/
theorem calcOffsetPort_of_not_privileged {port : List UInt8} (h : ¬ Privileged (ntohs port)) :
    calcOffsetPort addition port = port := if_neg h

theorem ntohs_calcOffsetPort {port : List UInt8} (h : Redirectable addition (ntohs port)) :
    ntohs (calcOffsetPort addition port) = ntohs port + addition := by
  have hcalc : calcOffsetPort addition port = htons (ntohs port + addition) := if_pos h.1
  rw [hcalc, ntohs_htons h.2.2]

/-- The port that replaced a privileged one stays. -/
theorem ntohs_calcOffsetPort_again (hport : Redirectable addition port) {bytes : List UInt8}
    (hbytes : ntohs bytes = port ∨ ntohs bytes = port + addition) :
    ntohs (calcOffsetPort addition bytes) = port + addition := by
  obtain rfl | hbytes := hbytes
  · exact ntohs_calcOffsetPort hport
  · have hnot : ¬ Privileged (ntohs bytes) := by
      intro h
      have hlt := h.2
      have hle := hport.2.1
      omega
    rw [calcOffsetPort_of_not_privileged hnot, hbytes]

/-- The numbers that redirect every privileged port. -/
theorem redirectable_iff (addition : ℕ) :
    (∀ port, Privileged port → Redirectable addition port) ↔
      1023 ≤ addition ∧ addition ≤ 64512 := by
  constructor
  · intro h
    have hfirst := h 1 ⟨by decide, by decide⟩
    have hlast := h 1023 ⟨by decide, by decide⟩
    simp only [Redirectable, portThreshold] at hfirst hlast
    omega
  · intro h port hport
    refine ⟨hport, ?_⟩
    simp only [Privileged, portThreshold] at hport ⊢
    omega

/-! ### One call -/

section

variable {access : Access} {addition : ℕ} {m : TraceeMemory} {a size : ℕ}

/-- A short read reads whole words. -/
theorem readData_short (hpos : size ≠ 0) (hsize : size < vmFastThreshold) :
    readData access m a size =
      if m.Mapped a (roundUp size) then some (m.values a size) else none := by
  have hwords := @readWords_eq m a (size / 8) (size % 8) (Nat.mod_lt _ (by decide))
  rw [Nat.div_add_mod] at hwords
  rw [readData, if_neg hpos, if_neg (Nat.not_le.2 hsize)]
  exact hwords

/-- A short write into words that can be read. -/
theorem writeData_short {src : List UInt8} (hpos : src.length ≠ 0)
    (hsize : src.length < vmFastThreshold) (hmapped : m.Mapped a (roundUp src.length)) :
    writeData access m a src = (m.put a src, true) := by
  have hserves : ¬ access.Serves src.length := fun h => Nat.not_le.2 hsize h.1
  rw [writeData_of_not_serves hserves hpos, wordSize, writeWords_eq_of_mapped rfl hmapped]

/-- Two bytes of a range are replaced. -/
theorem put_replaced (hnew : new.length = 2) (hsize : 4 ≤ size) :
    m.put a ((m.values a size).take 2 ++ new ++ (m.values a size).drop 4) =
      m.put (a + 2) new := by
  obtain ⟨rest, rfl⟩ := Nat.exists_eq_add_of_le hsize
  have hfront : (m.values a (4 + rest)).take 2 = m.values a 2 := take_values (by omega)
  have hback : (m.values a (4 + rest)).drop 4 = m.values (a + 4) rest := by
    rw [values_add]
    exact List.drop_left' length_values
  have hlength : (m.values a 2 ++ new).length = 4 := by simp [hnew]
  have hkept : m.values (a + 4) rest = (m.put (a + 2) new).values (a + 4) rest :=
    (values_put_outside (.inr (by omega))).symm
  have hput : m.put a (m.values a 2 ++ new) = m.put (a + 2) new := by
    have happend := @put_append _ m a (m.values a 2) new
    rwa [put_values, length_values, eq_comm] at happend
  have hrest := @put_append _ m a (m.values a 2 ++ new) (m.values (a + 4) rest)
  rw [hfront, hback, ← hrest, hlength, hput, hkept, put_values]

theorem values_put_two (hnew : new.length = 2) : (m.put a new).values a 2 = new := by
  rw [← hnew]
  exact values_put

/-- An address whose words can be read gets the port. -/
theorem modifyPort_eq (hsize : 4 ≤ size) (hshort : size < vmFastThreshold) (isBind : Bool) :
    (modifyPort access addition m size a isBind).memory =
        (if m.Mapped a (roundUp size) then
          m.put (a + 2) (calcOffsetPort addition (m.values (a + 2) 2)) else m) ∧
      (modifyPort access addition m size a isBind).status =
        if m.Mapped a (roundUp size) then .ok () else .error .eio := by
  rw [modifyPort, readData_short (by omega) hshort]
  by_cases hmapped : m.Mapped a (roundUp size)
  · have hport : ((m.values a size).drop 2).take 2 = m.values (a + 2) 2 := by
      obtain ⟨rest, rfl⟩ := Nat.exists_eq_add_of_le hsize
      have hsum : 4 + rest = 2 + (2 + rest) := by omega
      rw [hsum, values_add, List.drop_left' length_values, take_values (by omega)]
    have hnew := @length_calcOffsetPort addition (m.values (a + 2) 2) length_values
    have hlength : ((m.values a size).take 2 ++ calcOffsetPort addition (m.values (a + 2) 2) ++
        (m.values a size).drop 4).length = size := by
      simp only [List.length_append, List.length_take, List.length_drop, length_values, hnew]
      omega
    have hwrite := @writeData_short access m a _ (by rw [hlength]; omega) (by rwa [hlength])
      (by rwa [hlength] : m.Mapped a (roundUp ((m.values a size).take 2 ++
        calcOffsetPort addition (m.values (a + 2) 2) ++ (m.values a size).drop 4).length))
    rw [if_pos hmapped, if_pos hmapped, if_pos hmapped]
    dsimp only
    rw [hport, hwrite, put_replaced hnew hsize]
    exact ⟨rfl, rfl⟩
  · rw [if_neg hmapped, if_neg hmapped, if_neg hmapped]
    exact ⟨rfl, rfl⟩

/-- A call changes nothing, and then it fails or has no port, or it puts the port in place
of the one that it finds. -/
theorem portSwitchCallback_cases (c : SocketCall) :
    ((portSwitchCallback access addition m c).memory = m ∧
      ((portSwitchCallback access addition m c).status = .ok () → portOf m c = none)) ∨
    (portOf m c = some (ntohs (m.values (c.addrPtr + 2) 2)) ∧
      (portSwitchCallback access addition m c).memory =
        m.put (c.addrPtr + 2) (calcOffsetPort addition (m.values (c.addrPtr + 2) 2)) ∧
      (portSwitchCallback access addition m c).status = .ok ()) := by
  by_cases hother : c.sysnum = .other
  · left
    rw [portSwitchCallback, hother, portOf, if_pos (.inl hother)]
    exact ⟨rfl, fun _ => rfl⟩
  have hcall : portSwitchCallback access addition m c =
      handleStandardSocketcall access addition m c := by
    rw [portSwitchCallback]
    cases hsysnum : c.sysnum with
    | other => exact absurd hsysnum hother
    | bind => rfl
    | connect => rfl
    | sendto => rfl
  rw [hcall, handleStandardSocketcall]
  by_cases hnull : c.sysnum = .sendto ∧ c.addrPtr = 0
  · left
    rw [if_pos hnull, portOf, if_pos (.inr hnull)]
    exact ⟨rfl, fun _ => rfl⟩
  rw [if_neg hnull, readData_short (by decide) (by decide)]
  by_cases hmapped : m.Mapped c.addrPtr (roundUp 2)
  · rw [if_pos hmapped, portOf, if_neg (not_or.2 ⟨hother, hnull⟩)]
    dsimp only
    -- the address is modified, or its words cannot be read
    have hmodify : ∀ size, 4 ≤ size → size < vmFastThreshold → ∀ isBind,
        ((modifyPort access addition m size c.addrPtr isBind).memory = m ∧
          (modifyPort access addition m size c.addrPtr isBind).status ≠ .ok ()) ∨
        (modifyPort access addition m size c.addrPtr isBind).memory =
          m.put (c.addrPtr + 2) (calcOffsetPort addition (m.values (c.addrPtr + 2) 2)) ∧
          (modifyPort access addition m size c.addrPtr isBind).status = .ok () := by
      intro size hsize hshort isBind
      have heq := @modifyPort_eq access addition m c.addrPtr size hsize hshort isBind
      by_cases hsockaddr : m.Mapped c.addrPtr (roundUp size)
      · rw [if_pos hsockaddr, if_pos hsockaddr] at heq
        exact .inr heq
      · rw [if_neg hsockaddr, if_neg hsockaddr] at heq
        refine .inl ⟨heq.1, ?_⟩
        rw [heq.2]
        exact nofun
    by_cases hinet : LittleEndian.decode (m.values c.addrPtr 2) = afInet
    · rw [if_pos hinet, if_pos (.inl hinet)]
      obtain ⟨hsame, hfails⟩ | hput := hmodify 16 (by decide) (by decide) _
      · exact .inl ⟨hsame, fun hok => absurd hok hfails⟩
      · exact .inr ⟨rfl, hput⟩
    · rw [if_neg hinet]
      by_cases hinet6 : LittleEndian.decode (m.values c.addrPtr 2) = afInet6
      · rw [if_pos hinet6, if_pos (.inr hinet6)]
        obtain ⟨hsame, hfails⟩ | hput := hmodify 28 (by decide) (by decide) _
        · exact .inl ⟨hsame, fun hok => absurd hok hfails⟩
        · exact .inr ⟨rfl, hput⟩
      · rw [if_neg hinet6, if_neg (not_or.2 ⟨hinet, hinet6⟩)]
        exact .inl ⟨rfl, fun _ => rfl⟩
  · rw [if_neg hmapped]
    exact .inl ⟨rfl, nofun⟩

/-- The port in the address of a call, when another one is put there. -/
theorem portOf_put {c : SocketCall} (hport : portOf m c = some port) (hnew : new.length = 2) :
    portOf (m.put (c.addrPtr + 2) new) c = some (ntohs new) := by
  have hfamily : (m.put (c.addrPtr + 2) new).values c.addrPtr 2 = m.values c.addrPtr 2 :=
    values_put_outside (.inl (Nat.le_refl _))
  rw [portOf] at hport ⊢
  rw [hfamily, values_put_two hnew]
  split at hport
  · cases hport
  · rename_i hcall
    rw [if_neg hcall]
    dsimp only at hport ⊢
    split at hport
    · rename_i hinet
      rw [if_pos hinet]
    · cases hport

/-! ### Runs -/

/-- What an entry says is what the extension did. -/
theorem after_of_mem (he : e ∈ run access addition m events) :
    e.after = portSwitchCallback access addition e.before e.call := by
  induction events generalizing m with
  | nil => cases he
  | cons event events ih =>
    cases event with
    | guest m' => exact ih he
    | call c =>
      obtain rfl | he := List.mem_cons.1 he
      · rfl
      · exact ih he

/-- The bytes of the port that the guest asks for. -/
def Entry.bytes (e : Entry) : List UInt8 := e.before.values (e.call.addrPtr + 2) 2

/-- A call with a port gets another port in its place. -/
theorem made_eq (he : e ∈ run access addition m events) (hmade : e.Made)
    (hport : e.requested = some port) :
    ntohs e.bytes = port ∧
      e.after.memory = e.before.put (e.call.addrPtr + 2) (calcOffsetPort addition e.bytes) ∧
        e.used = some (ntohs (calcOffsetPort addition e.bytes)) := by
  have hafter := after_of_mem he
  rw [Entry.Made, hafter] at hmade
  obtain ⟨-, hnone⟩ | ⟨hsome, hput, -⟩ :=
    @portSwitchCallback_cases access addition e.before e.call
  · rw [Entry.requested, hnone hmade] at hport
    cases hport
  · rw [← hafter] at hput
    refine ⟨Option.some.inj (hsome.symm.trans hport), hput, ?_⟩
    rw [Entry.used, hput]
    exact portOf_put hport (length_calcOffsetPort addition length_values)

theorem used_eq_none (he : e ∈ run access addition m events) (hnone : e.requested = none) :
    e.used = none := by
  have hafter := after_of_mem he
  obtain ⟨hsame, -⟩ | ⟨hsome, -⟩ := @portSwitchCallback_cases access addition e.before e.call
  · rwa [Entry.used, hafter, hsame]
  · rw [Entry.requested, hsome] at hnone
    cases hnone

/-- The bytes of the port in a buffer that is used again: one call is enough to put the
other port there, and more do not change it. -/
theorem buffer_after {buffer : ℕ} (hport : Redirectable addition port) {c : SocketCall}
    (hc : c.addrPtr = buffer ∨ c.addrPtr + 4 ≤ buffer ∨ buffer + 4 ≤ c.addrPtr)
    (hbuffer : ntohs (m.values (buffer + 2) 2) = port ∨
      ntohs (m.values (buffer + 2) 2) = port + addition) :
    ntohs ((portSwitchCallback access addition m c).memory.values (buffer + 2) 2) = port ∨
      ntohs ((portSwitchCallback access addition m c).memory.values (buffer + 2) 2) =
        port + addition := by
  obtain ⟨hsame, -⟩ | ⟨-, hput, -⟩ := @portSwitchCallback_cases access addition m c
  · rwa [hsame]
  · have hnew := @length_calcOffsetPort addition (m.values (c.addrPtr + 2) 2) length_values
    obtain rfl | hdisjoint := hc
    · rw [hput, values_put_two hnew]
      exact .inr (ntohs_calcOffsetPort_again hport hbuffer)
    · rw [hput, values_put_outside (by omega)]
      exact hbuffer

/-- The port that a buffer stands for, through a run that uses it again. -/
theorem used_of_reuses {buffer : ℕ} (hport : Redirectable addition port)
    (hreuses : Reuses access addition buffer m events)
    (hbuffer : ntohs (m.values (buffer + 2) 2) = port ∨
      ntohs (m.values (buffer + 2) 2) = port + addition) (he : e ∈ run access addition m events)
    (haddr : e.call.addrPtr = buffer) : ntohs e.bytes = port ∨ ntohs e.bytes = port + addition := by
  induction events generalizing m with
  | nil => cases he
  | cons event events ih =>
    cases event with
    | guest m' =>
      have hkept : m'.values (buffer + 2) 2 = m.values (buffer + 2) 2 := by
        have hfour : ∀ n : TraceeMemory, n.values buffer 4 =
            n.values buffer 2 ++ n.values (buffer + 2) 2 :=
          fun n => @values_add UInt8 n buffer 2 2
        have hsame := hreuses.1
        rw [hfour, hfour] at hsame
        exact (List.append_inj hsame (by simp [length_values])).2
      exact ih hreuses.2 (by rwa [hkept]) he
    | call c =>
      obtain rfl | he := List.mem_cons.1 he
      · rwa [Entry.bytes, haddr]
      · exact ih hreuses.2 (buffer_after hport hreuses.1 hbuffer) he

end

/-- **The redirections of a run are consistent**: those of every privileged port, if the
number is between these two. -/
theorem redirections_consistent (env : Option CStr) (access : Access) (m : TraceeMemory)
    (events : List Event) :
    ((∀ port, Privileged port → Redirectable (getPortAddition env) port) ↔
      1023 ≤ getPortAddition env ∧ getPortAddition env ≤ 64512) ∧
    Consistent access (getPortAddition env) m events := by
  refine ⟨redirectable_iff _, ?_⟩
  have hredirected : ∀ e ∈ run access (getPortAddition env) m events, e.Made → ∀ port,
      e.requested = some port → Redirectable (getPortAddition env) port →
        e.used = some (port + getPortAddition env) := by
    intro e he hmade port hport hredirectable
    obtain ⟨rfl, -, hused⟩ := made_eq he hmade hport
    rw [hused, ntohs_calcOffsetPort hredirectable]
  refine ⟨hredirected, ?_, ?_, ?_, ?_⟩
  · intro e he e' he' hmade hmade' port port' hport hport' hredirectable hredirectable'
    rw [hredirected e he hmade port hport hredirectable,
      hredirected e' he' hmade' port' hport' hredirectable', Option.some.injEq]
    exact Nat.add_right_cancel_iff
  · intro buffer port hreuses hbuffer hredirectable e he hmade haddr used hused
    have hbytes := used_of_reuses hredirectable hreuses (.inl hbuffer) he haddr
    cases hrequested : e.requested with
    | none =>
      rw [used_eq_none he hrequested] at hused
      cases hused
    | some requested =>
      obtain ⟨-, -, heq⟩ := made_eq he hmade hrequested
      rw [heq, Option.some.injEq] at hused
      rw [← hused]
      exact ntohs_calcOffsetPort_again hredirectable hbytes
  · intro e he hnot
    obtain ⟨hsame, -⟩ | ⟨hsome, hput, hok⟩ :=
      @portSwitchCallback_cases access (getPortAddition env) e.before e.call
    · rw [after_of_mem he, hsame]
    · have hnotPrivileged : ¬ Privileged (ntohs (e.before.values (e.call.addrPtr + 2) 2)) := by
        intro h
        apply hnot
        refine ⟨?_, _, hsome, h⟩
        rw [Entry.Made, after_of_mem he, hok]
      rw [after_of_mem he, hput, calcOffsetPort_of_not_privileged hnotPrivileged, put_values]
  · intro e he
    rw [after_of_mem he]
    obtain ⟨hsame, -⟩ | ⟨-, hput, -⟩ :=
      @portSwitchCallback_cases access (getPortAddition env) e.before e.call
    · rw [hsame]
      exact within_refl
    · rw [hput]
      have hnew := @length_calcOffsetPort (getPortAddition env)
        (e.before.values (e.call.addrPtr + 2) 2) length_values
      have hwithin := within_put (m := e.before) (a := e.call.addrPtr + 2)
        (calcOffsetPort (getPortAddition env) (e.before.values (e.call.addrPtr + 2) 2))
      rwa [hnew] at hwithin

/-- An address of the first family with port 80. -/
def httpAddress : TraceeMemory where
  pageSize := 4096
  isMapped page := page == 1
  value x := if x = 4096 then 2 else if x = 4099 then 80 else 0
  pageSize_pos := Mem.pageSize_4096_pos

/-- The address in the memory of the guest is not left as it was. -/
theorem address_modified :
    ¬ ∀ env access m call, (portSwitchCallback access (getPortAddition env) m call).memory = m := by
  intro h
  have hsame := h none ⟨true, true⟩ httpAddress ⟨.bind, 4096, 0⟩
  have hvalue := congrArg (fun m : TraceeMemory => m.values 4098 2) hsame
  exact absurd hvalue (by decide)

end NeoProot.PortSwitch
