import Mathlib.Data.Int.Notation
import Mathlib.Data.List.Nodup
import NeoProot.Lib.Run
import NeoProot.Lib.Slots

/-!
# Descriptors that stand for netlink sockets

Where the host refuses `AF_NETLINK`, a guest that asks for such a socket is given one of
`AF_UNIX`, and the tracer answers in its place.  It knows these descriptors by number: the
exit of `socket` enters a number in a table of the tracee, the entry of `close` takes it out,
and a child starts with the table of its parent.

What a number refers to is for the kernel, whose table of descriptors may belong to several
tracees at once.  `World.tracked_iff` says in which runs the two tables agree.

## Main definitions

* `FakeNetlinkFds` — the numbers a tracee has entered.
* `Files` — the descriptors of the kernel.
* `World.step` — what a call does to both.
* `World.Tracked` — a number is entered exactly when it refers to a substitute.
-/

namespace NeoProot.Netlink
open Run

variable {answer fd : ℤ} {p q : ℕ}

/-! ### The table of a tracee -/

/-- `struct fake_netlink_socket`. -/
structure FakeNetlinkSocket where
  fd : ℤ
  reply : Option (List UInt8)
  replyLen : ℕ
  replyOff : ℕ
  deriving DecidableEq, Repr

/-- `MAX_FAKE_NETLINK_FDS`. -/
def maxFakeNetlinkFds : ℕ := 8

/-- `fake_netlink_fds`, up to its count. -/
structure FakeNetlinkFds where
  sockets : List FakeNetlinkSocket
  bounded : sockets.length ≤ maxFakeNetlinkFds
  opened : ∀ sock ∈ sockets, 0 ≤ sock.fd
  distinct : (sockets.map (·.fd)).Nodup
  deriving DecidableEq, Repr

namespace FakeNetlinkFds

/-- No descriptor. -/
def empty : FakeNetlinkFds := ⟨[], Nat.zero_le _, by simp, by simp⟩

/-- `fake_netlink_fds_count`. -/
def count (t : FakeNetlinkFds) : ℕ := t.sockets.length

/-- The numbers in the table. -/
def fds (t : FakeNetlinkFds) : List ℤ := t.sockets.map (·.fd)

theorem nodup_fds (t : FakeNetlinkFds) : t.fds.Nodup := t.distinct

/-- `fake_netlink_socket`, by its index. -/
def fakeNetlinkSocket (t : FakeNetlinkFds) (fd : ℤ) : Option ℕ :=
  if fd < 0 then none else t.sockets.findIdx? (·.fd = fd)

/-- `is_fake_netlink_fd`, on which the emulation of every call depends. -/
def isFakeNetlinkFd (t : FakeNetlinkFds) (fd : ℤ) : Bool := (t.fakeNetlinkSocket fd).isSome

theorem isFakeNetlinkFd_iff (t : FakeNetlinkFds) (fd : ℤ) :
    t.isFakeNetlinkFd fd = true ↔ fd ∈ t.fds := by
  rw [isFakeNetlinkFd, fakeNetlinkSocket, fds, List.mem_map]
  split
  · rename_i hneg
    simp only [Option.isSome_none, Bool.false_eq_true, false_iff, not_exists, not_and]
    intro sock hsock hfd
    have hopened := t.opened sock hsock
    omega
  · rw [List.findIdx?_isSome]
    simp

/-- The index that is found is the one of the number. -/
theorem fd_of_fakeNetlinkSocket {t : FakeNetlinkFds} {i : ℕ} (h : t.fakeNetlinkSocket fd = some i) :
    ∃ hi : i < t.sockets.length, t.sockets[i].fd = fd := by
  rw [fakeNetlinkSocket] at h
  split at h
  · exact absurd h (by simp)
  · obtain ⟨hi, hfd, -⟩ := List.findIdx?_eq_some_iff_getElem.1 h
    exact ⟨hi, by simpa using hfd⟩

/-- An entry leaves. -/
def removeAt (t : FakeNetlinkFds) (i : ℕ) (hi : i < t.sockets.length) : FakeNetlinkFds where
  sockets := Slots.swapRemove t.sockets i
  bounded := by
    have hbounded := t.bounded
    have hlength := List.length_eraseIdx_of_lt hi
    rw [(Slots.swapRemove_perm hi).length_eq]
    omega
  opened := by
    intro sock hsock
    exact t.opened sock (List.mem_of_mem_eraseIdx ((Slots.swapRemove_perm hi).mem_iff.1 hsock))
  distinct := by
    rw [((Slots.swapRemove_perm hi).map _).nodup_iff, ← List.eraseIdx_map]
    exact t.distinct.sublist (List.eraseIdx_sublist ..)

/-- `unmark_fake_netlink_fd`. -/
def unmarkFakeNetlinkFd (t : FakeNetlinkFds) (fd : ℤ) : FakeNetlinkFds :=
  match h : t.fakeNetlinkSocket fd with
  | none => t
  | some i => t.removeAt i (fd_of_fakeNetlinkSocket h).1

theorem mem_fds_unmark (t : FakeNetlinkFds) (fd n : ℤ) :
    n ∈ (t.unmarkFakeNetlinkFd fd).fds ↔ n ≠ fd ∧ n ∈ t.fds := by
  rw [unmarkFakeNetlinkFd]
  split
  · rename_i hnone
    have hout : fd ∉ t.fds := by
      rw [← isFakeNetlinkFd_iff, isFakeNetlinkFd, hnone]
      simp
    constructor
    · intro hn
      exact ⟨fun heq => hout (heq ▸ hn), hn⟩
    · exact And.right
  · rename_i i hsome
    obtain ⟨hi, hfd⟩ := fd_of_fakeNetlinkSocket hsome
    have hi' : i < t.fds.length := by simpa [fds] using hi
    have hat : t.fds[i] = fd := by simpa [fds] using hfd
    have herase : t.fds.eraseIdx i = t.fds.erase fd := by
      rw [← hat]
      exact (t.nodup_fds.erase_getElem i hi').symm
    have hremoved : n ∈ (t.removeAt i hi).fds ↔ n ∈ t.fds.eraseIdx i := by
      rw [fds, removeAt, ((Slots.swapRemove_perm hi).map _).mem_iff, ← List.eraseIdx_map, fds]
    rw [hremoved, herase]
    exact t.nodup_fds.mem_erase_iff

/-- The exit of `socket`: its result is entered. -/
def markFakeNetlinkFd (t : FakeNetlinkFds) (fd : ℤ) : FakeNetlinkFds :=
  if h : 0 ≤ fd ∧ t.count < maxFakeNetlinkFds ∧ fd ∉ t.fds then
    { sockets := t.sockets ++ [⟨fd, none, 0, 0⟩]
      bounded := by
        have hcount := h.2.1
        rw [count] at hcount
        rw [List.length_append, List.length_singleton]
        omega
      opened := by
        intro sock hsock
        obtain hsock | hsock := List.mem_append.1 hsock
        · exact t.opened sock hsock
        · rw [List.mem_singleton.1 hsock]
          exact h.1
      distinct := by
        rw [List.map_append]
        exact t.distinct.append (List.nodup_singleton _) (by simpa [fds] using h.2.2) }
  else t

theorem mem_fds_mark (t : FakeNetlinkFds) (fd n : ℤ) :
    n ∈ (t.markFakeNetlinkFd fd).fds ↔
      n ∈ t.fds ∨ n = fd ∧ 0 ≤ fd ∧ t.count < maxFakeNetlinkFds := by
  rw [markFakeNetlinkFd]
  split
  · rename_i h
    simp only [fds, List.map_append, List.map_cons, List.map_nil, List.mem_append,
      List.mem_singleton, h.1, h.2.1, and_true]
  · rename_i h
    constructor
    · exact Or.inl
    · rintro (hn | ⟨rfl, hfd, hcount⟩)
      · exact hn
      · by_contra hout
        exact h ⟨hfd, hcount, hout⟩

end FakeNetlinkFds

/-! ### The descriptors of the kernel -/

/-- What a descriptor refers to: a socket that was made in place of a netlink socket, or
anything else. -/
inductive Referent
  | substitute
  | other
  deriving DecidableEq, Repr

structure Descriptor where
  refers : Referent
  closeOnExec : Bool
  deriving DecidableEq, Repr

/-- A table of descriptors of the kernel. -/
structure Files where
  descriptor : ℤ → Option Descriptor
  nonneg : ∀ fd d, descriptor fd = some d → 0 ≤ fd

variable {f : Files}

/-- The system calls that make, move or close descriptors. -/
inductive Call
  | socket (domain type protocol : UInt64)
  /-- `dup`, and `fcntl` with `F_DUPFD` or `F_DUPFD_CLOEXEC`. -/
  | dup (fd : ℤ) (closeOnExec : Bool)
  | dup2 (fd target : ℤ)
  | dup3 (fd target : ℤ) (closeOnExec : Bool)
  /-- `fcntl` with `F_SETFD`. -/
  | setfd (fd : ℤ) (closeOnExec : Bool)
  | close (fd : ℤ)
  /-- `close_range`, where `CLOSE_RANGE_UNSHARE` comes as a step of its own. -/
  | closeRange (first last : ℕ) (closeOnExec : Bool)
  deriving DecidableEq, Repr

/-- `AF_NETLINK`. -/
def afNetlink : UInt64 := 16

/-- `NETLINK_ROUTE`. -/
def netlinkRoute : UInt64 := 0

/-- `SOCK_CLOEXEC`. -/
def sockCloexec : UInt64 := 0x80000

namespace Files

/-- The number refers to a substitute. -/
def Substitute (f : Files) (fd : ℤ) : Prop := (f.descriptor fd).map (·.refers) = some .substitute

instance (f : Files) (fd : ℤ) : Decidable (f.Substitute fd) := inferInstanceAs (Decidable (_ = _))

/-- The kernel can give the number to a new descriptor. -/
def Free (f : Files) (fd : ℤ) : Prop := 0 ≤ fd ∧ f.descriptor fd = none

instance (f : Files) (fd : ℤ) : Decidable (f.Free fd) := inferInstanceAs (Decidable (_ ∧ _))

/-- A number refers to something new. -/
def put (f : Files) (fd : ℤ) (d : Descriptor) : Files where
  descriptor n := if n = fd ∧ 0 ≤ fd then some d else f.descriptor n
  nonneg := by
    intro n e hn
    split at hn
    · rename_i h
      rw [h.1]
      exact h.2
    · exact f.nonneg n e hn

/-- Descriptors are closed, or change. -/
def change (f : Files) (g : ℤ → Descriptor → Option Descriptor) : Files where
  descriptor n := (f.descriptor n).bind (g n)
  nonneg := by
    intro n e hn
    obtain ⟨d, hd, -⟩ := Option.bind_eq_some_iff.1 hn
    exact f.nonneg n d hd

/-- The descriptors of a range are closed. -/
def closeRange (f : Files) (first last : ℤ) : Files :=
  f.change fun n d => if first ≤ n ∧ n ≤ last then none else some d

/-- `FD_CLOEXEC` of the descriptors of a range. -/
def setCloseOnExec (f : Files) (first last : ℤ) (closeOnExec : Bool) : Files :=
  f.change fun n d => if first ≤ n ∧ n ≤ last then some { d with closeOnExec } else some d

/-- What `execve` leaves open. -/
def exec (f : Files) : Files := f.change fun _ d => if d.closeOnExec then none else some d

/-- A new descriptor, with the number that the kernel chooses, and the result. -/
def alloc (f : Files) (answer : ℤ) (d : Descriptor) : Files × ℤ :=
  if f.Free answer then (f.put answer d, answer) else (f, -24)

/-- A descriptor takes a number, whatever that referred to.  The kernel refuses numbers beyond
the limit of the process. -/
def replace (f : Files) (answer target : ℤ) (d : Descriptor) : Files × ℤ :=
  if 0 ≤ target ∧ 0 ≤ answer then (f.put target d, target) else (f, -9)

/-- What the kernel does, and its result.  `answer` is the number it chooses, negative if it
refuses, and `substitute` that the arguments of `socket` were changed. -/
def perform (f : Files) (answer : ℤ) (substitute : Bool) : Call → Files × ℤ
  | .socket _ type _ =>
    f.alloc answer ⟨if substitute then .substitute else .other, type &&& sockCloexec ≠ 0⟩
  | .dup fd closeOnExec =>
    match f.descriptor fd with
    | none => (f, -9)
    | some d => f.alloc answer { d with closeOnExec }
  | .dup2 fd target =>
    match f.descriptor fd with
    | none => (f, -9)
    | some d => if fd = target then (f, target) else f.replace answer target ⟨d.refers, false⟩
  | .dup3 fd target closeOnExec =>
    if fd = target then (f, -22)
    else
      match f.descriptor fd with
      | none => (f, -9)
      | some d => f.replace answer target { d with closeOnExec }
  | .setfd fd closeOnExec =>
    if f.descriptor fd = none then (f, -9) else (f.setCloseOnExec fd fd closeOnExec, 0)
  | .close fd => if f.descriptor fd = none then (f, -9) else (f.closeRange fd fd, 0)
  | .closeRange first last closeOnExec =>
    if last < first then (f, -22)
    else if closeOnExec then (f.setCloseOnExec first last true, 0)
    else (f.closeRange first last, 0)

/-- The same numbers refer to substitutes. -/
def Same (f g : Files) : Prop := ∀ fd, f.Substitute fd ↔ g.Substitute fd

theorem Same.refl (f : Files) : f.Same f := fun _ => Iff.rfl

theorem not_substitute_of_free (h : f.Free fd) : ¬ f.Substitute fd := by
  rw [Substitute, h.2]
  simp

theorem substitute_of_descriptor {d : Descriptor} (h : f.descriptor fd = some d) :
    f.Substitute fd ↔ d.refers = .substitute := by
  rw [Substitute, h]
  simp

theorem descriptor_of_substitute (h : f.Substitute fd) : f.descriptor fd ≠ none := by
  intro hnone
  rw [Substitute, hnone] at h
  exact absurd h (by simp)

theorem substitute_put (f : Files) (hfd : 0 ≤ fd) (d : Descriptor) (n : ℤ) :
    (f.put fd d).Substitute n ↔ if n = fd then d.refers = .substitute else f.Substitute n := by
  by_cases hn : n = fd
  · simp [Substitute, put, hn, hfd]
  · simp [Substitute, put, hn]

theorem same_put (f : Files) (hfd : 0 ≤ fd) (d : Descriptor) :
    (f.put fd d).Same f ↔ (d.refers = .substitute ↔ f.Substitute fd) := by
  constructor
  · intro h
    have hat := h fd
    rwa [f.substitute_put hfd, if_pos rfl] at hat
  · intro h n
    rw [f.substitute_put hfd]
    split
    · rename_i hn
      rw [hn, h]
    · exact Iff.rfl

/-- A new descriptor refers to something else. -/
theorem same_alloc (f : Files) (answer : ℤ) (d : Descriptor) :
    (f.alloc answer d).1.Same f ↔ (d.refers = .substitute → ¬ f.Free answer) := by
  rw [alloc]
  split
  · rename_i hfree
    rw [f.same_put hfree.1]
    have hnot := not_substitute_of_free hfree
    tauto
  · rename_i hfree
    exact iff_of_true (.refl f) (fun _ => hfree)

theorem same_replace (f : Files) (answer target : ℤ) (d : Descriptor) :
    (f.replace answer target d).1.Same f ↔
      (0 ≤ target → 0 ≤ answer → (d.refers = .substitute ↔ f.Substitute target)) := by
  rw [replace]
  split
  · rename_i h
    rw [f.same_put h.1]
    have hboth := h.2
    tauto
  · rename_i h
    exact iff_of_true (.refl f) (fun ht ha => absurd ⟨ht, ha⟩ h)

theorem substitute_iff :
    f.Substitute fd ↔ ∃ d, f.descriptor fd = some d ∧ d.refers = .substitute := by
  rw [Substitute, Option.map_eq_some_iff]

theorem substitute_change (f : Files) (g : ℤ → Descriptor → Option Descriptor) (n : ℤ) :
    (f.change g).Substitute n ↔
      ∃ d, f.descriptor n = some d ∧ ∃ e, g n d = some e ∧ e.refers = .substitute := by
  rw [Substitute, change, Option.map_eq_some_iff]
  simp only [Option.bind_eq_some_iff]
  constructor
  · rintro ⟨e, ⟨d, hd, he⟩, hrefers⟩
    exact ⟨d, hd, e, he, hrefers⟩
  · rintro ⟨d, hd, e, he, hrefers⟩
    exact ⟨e, ⟨d, hd, he⟩, hrefers⟩

theorem substitute_closeRange (f : Files) (first last n : ℤ) :
    (f.closeRange first last).Substitute n ↔ ¬ (first ≤ n ∧ n ≤ last) ∧ f.Substitute n := by
  rw [closeRange, substitute_change, substitute_iff]
  by_cases hn : first ≤ n ∧ n ≤ last
  · simp [hn]
  · simp [hn]

theorem same_closeRange (f : Files) (first last : ℤ) :
    (f.closeRange first last).Same f ↔ ∀ n, first ≤ n → n ≤ last → ¬ f.Substitute n := by
  constructor
  · intro h n hfirst hlast hn
    exact ((f.substitute_closeRange first last n).1 ((h n).2 hn)).1 ⟨hfirst, hlast⟩
  · intro h n
    rw [substitute_closeRange]
    constructor
    · exact And.right
    · exact fun hn => ⟨fun hin => h n hin.1 hin.2 hn, hn⟩

theorem same_setCloseOnExec (f : Files) (first last : ℤ) (closeOnExec : Bool) :
    (f.setCloseOnExec first last closeOnExec).Same f := by
  intro n
  rw [setCloseOnExec, substitute_change, substitute_iff]
  by_cases hn : first ≤ n ∧ n ≤ last
  · simp [hn]
  · simp [hn]

theorem same_exec (f : Files) : f.exec.Same f ↔ ∀ n, f.descriptor n ≠ some ⟨.substitute, true⟩ := by
  constructor
  · intro h n hn
    have hopen := (h n).2 (substitute_iff.2 ⟨_, hn, rfl⟩)
    rw [exec, substitute_change] at hopen
    obtain ⟨d, hd, hkept⟩ := hopen
    rw [hn, Option.some.injEq] at hd
    subst hd
    simp at hkept
  · intro h n
    rw [exec, substitute_change, substitute_iff]
    apply exists_congr
    intro d
    apply and_congr_right
    intro hd
    obtain ⟨refers, closeOnExec⟩ := d
    cases closeOnExec with
    | false => simp
    | true =>
      -- a substitute that `execve` closes is what the condition excludes
      have hother : refers ≠ .substitute := by
        intro heq
        subst heq
        exact h n hd
      simp [hother]

end Files

/-! ### Tracees -/

/-- A tracee, with the number of its table of descriptors. -/
structure Process where
  fakeNetlinkFds : FakeNetlinkFds
  pendingFakeNetlinkSocket : Bool
  files : ℕ
  deriving DecidableEq, Repr

variable {t : Process}

/-- The arguments of `socket` are changed to those of an `AF_UNIX` socket.  `blocked` is the
answer of `host_blocks_af_netlink`. -/
def Substituted (blocked : Bool) (domain protocol : UInt64) : Prop :=
  domain = afNetlink ∧ protocol = netlinkRoute ∧ blocked = true

instance (blocked : Bool) (domain protocol : UInt64) :
    Decidable (Substituted blocked domain protocol) :=
  inferInstanceAs (Decidable (_ ∧ _))

namespace Process

/-- `translate_syscall_enter`, for these calls. -/
def translateSyscallEnter (blocked : Bool) (t : Process) : Call → Process
  | .close fd => { t with fakeNetlinkFds := t.fakeNetlinkFds.unmarkFakeNetlinkFd fd }
  | .closeRange .. => t
  | .socket domain _ protocol =>
    if Substituted blocked domain protocol then { t with pendingFakeNetlinkSocket := true } else t
  | .dup .. | .dup2 .. | .dup3 .. | .setfd .. => t

/-- `translate_syscall_exit`, for these calls. -/
def translateSyscallExit (t : Process) (result : ℤ) : Call → Process
  | .dup .. | .dup2 .. | .dup3 .. | .setfd .. => t
  | .socket .. =>
    if t.pendingFakeNetlinkSocket then
      { t with
        fakeNetlinkFds := t.fakeNetlinkFds.markFakeNetlinkFd result
        pendingFakeNetlinkSocket := false }
    else t
  | .close .. | .closeRange .. => t

/-- A call that the kernel answers with a number or refuses. -/
def call (blocked : Bool) (t : Process) (f : Files) (answer : ℤ) (c : Call) : Process × Files :=
  let entered := t.translateSyscallEnter blocked c
  let done := f.perform answer entered.pendingFakeNetlinkSocket c
  (entered.translateSyscallExit done.2 c, done.1)

/-- A number is in the table exactly when it refers to a substitute, and none is in it twice. -/
def Tracks (t : Process) (f : Files) : Prop :=
  t.fakeNetlinkFds.fds.Nodup ∧
    ∀ fd, t.fakeNetlinkFds.isFakeNetlinkFd fd = true ↔ f.Substitute fd

theorem tracks_iff : t.Tracks f ↔ ∀ fd, fd ∈ t.fakeNetlinkFds.fds ↔ f.Substitute fd := by
  rw [Tracks, and_iff_right t.fakeNetlinkFds.nodup_fds]
  apply forall_congr'
  intro fd
  rw [FakeNetlinkFds.isFakeNetlinkFd_iff]

/-- A table follows another set of descriptors when both have the same substitutes. -/
theorem Tracks.iff_same {g : Files} (h : t.Tracks g) : t.Tracks f ↔ f.Same g := by
  rw [tracks_iff] at h ⊢
  apply forall_congr'
  intro fd
  rw [h fd]
  exact Iff.comm

theorem Tracks.congr {u : Process} (htable : u.fakeNetlinkFds = t.fakeNetlinkFds) :
    u.Tracks f ↔ t.Tracks f := by
  rw [Tracks, Tracks, htable]

end Process

/-! ### All tracees -/

/-- The tracees, and the tables of descriptors of the kernel. -/
structure World where
  procs : ℕ → Option Process
  files : ℕ → Files
  fresh : ℕ
  numbered : ∀ p t, procs p = some t → t.files < fresh

variable {w : World}

/-- What a tracee does. -/
inductive WorldOp
  | call (p : ℕ) (answer : ℤ) (c : Call)
  /-- `fork`, or `clone` with `CLONE_FILES`. -/
  | fork (p child : ℕ) (cloneFiles : Bool)
  /-- `unshare` with `CLONE_FILES`, or `close_range` with `CLOSE_RANGE_UNSHARE` first. -/
  | unshareFiles (p : ℕ)
  | execve (p : ℕ)
  | exit (p : ℕ)
  deriving DecidableEq, Repr

namespace World

/-- A tracee and its descriptors change. -/
def put (w : World) (p : ℕ) (t : Process) (f : Files) : World where
  procs := Function.update w.procs p (some t)
  files := Function.update w.files t.files f
  fresh := max w.fresh (t.files + 1)
  numbered := by
    intro q u hu
    by_cases hq : q = p
    · subst hq
      rw [Function.update_self, Option.some.injEq] at hu
      subst hu
      omega
    · rw [Function.update_of_ne hq] at hu
      have hnumber := w.numbered q u hu
      omega

@[simp] theorem put_procs_self (w : World) (p : ℕ) (t : Process) (f : Files) :
    (w.put p t f).procs p = some t := Function.update_self ..

@[simp] theorem put_procs_of_ne (w : World) (hq : q ≠ p) (t : Process) (f : Files) :
    (w.put p t f).procs q = w.procs q := Function.update_of_ne hq ..

@[simp] theorem put_files_self (w : World) (p : ℕ) (t : Process) (f : Files) :
    (w.put p t f).files t.files = f := Function.update_self ..

@[simp] theorem put_files_of_ne (w : World) (p : ℕ) {n : ℕ} (hn : n ≠ t.files) (f : Files) :
    (w.put p t f).files n = w.files n := Function.update_of_ne hn ..

/-- A tracee ends. -/
def exit (w : World) (p : ℕ) : World where
  procs := Function.update w.procs p none
  files := w.files
  fresh := w.fresh
  numbered := by
    intro q u hu
    by_cases hq : q = p
    · subst hq
      rw [Function.update_self] at hu
      exact absurd hu (by simp)
    · rw [Function.update_of_ne hq] at hu
      exact w.numbered q u hu

/-- A tracee after one has ended is another. -/
theorem procs_exit {u : Process} (h : (w.exit p).procs q = some u) : w.procs q = some u := by
  simp only [exit, Function.update_apply] at h
  split at h
  · exact absurd h (by simp)
  · exact h

/-- `new_child`, with the descriptors of the parent or a copy of them. -/
def newChild (w : World) (parent : Process) (child : ℕ) (cloneFiles : Bool) : World :=
  w.put child ⟨parent.fakeNetlinkFds, false, if cloneFiles then parent.files else w.fresh⟩
    (w.files parent.files)

/-- A step of a tracee.  Tracees that do not exist do nothing, and a child has a number of its
own. -/
def step (blocked : Bool) (w : World) : WorldOp → World
  | .call p answer c =>
    match w.procs p with
    | none => w
    | some t =>
      let after := t.call blocked (w.files t.files) answer c
      w.put p after.1 after.2
  | .fork p child cloneFiles =>
    match w.procs p, w.procs child with
    | some t, none => w.newChild t child cloneFiles
    | _, _ => w
  | .unshareFiles p =>
    match w.procs p with
    | none => w
    | some t => w.put p { t with files := w.fresh } (w.files t.files)
  | .execve p =>
    match w.procs p with
    | none => w
    | some t => w.put p { t with files := w.fresh } (w.files t.files).exec
  | .exit p => w.exit p

/-- The first tracee, with what it has open when it starts. -/
def init (p : ℕ) (inherited : ℕ → Option Bool) : World where
  procs := Function.update (fun _ => none) p (some ⟨.empty, false, 0⟩)
  files _ := {
    descriptor := fun fd =>
      if 0 ≤ fd then (inherited fd.toNat).map (⟨.other, ·⟩) else none
    nonneg := by
      intro fd d h
      split at h
      · assumption
      · exact absurd h (by simp) }
  fresh := 1
  numbered := by
    intro q t h
    by_cases hq : q = p
    · subst hq
      rw [Function.update_self, Option.some.injEq] at h
      subst h
      exact Nat.one_pos
    · rw [Function.update_of_ne hq] at h
      exact absurd h (by simp)

/-- In the table of every tracee are the numbers that refer to substitutes, each once. -/
def Tracked (w : World) : Prop := ∀ p t, w.procs p = some t → t.Tracks (w.files t.files)

/-- No call is under way. -/
def Settled (w : World) : Prop := ∀ p t, w.procs p = some t → t.pendingFakeNetlinkSocket = false

/-- No other tracee has the descriptors of this one. -/
def Alone (w : World) (p : ℕ) (t : Process) : Prop :=
  ∀ q u, w.procs q = some u → u.files = t.files → q = p

/-! ### When the tables keep up -/

/-- A tracee changes, and the descriptors it has: those who share them must find the same
substitutes. -/
theorem tracked_put (h : w.Tracked) :
    (w.put p t f).Tracked ↔
      t.Tracks f ∧
        ∀ q u, q ≠ p → w.procs q = some u → u.files = t.files → f.Same (w.files u.files) := by
  constructor
  · intro hput
    constructor
    · have hself := hput p t (w.put_procs_self p t f)
      rwa [put_files_self] at hself
    · intro q u hq hu hfiles
      have hother := hput q u (by rw [put_procs_of_ne w hq, hu])
      rw [hfiles, put_files_self, (h q u hu).iff_same] at hother
      exact hother
  · rintro ⟨hself, hothers⟩ q u hu
    by_cases hq : q = p
    · subst hq
      rw [put_procs_self, Option.some.injEq] at hu
      subst hu
      rwa [put_files_self]
    · rw [put_procs_of_ne w hq] at hu
      by_cases hfiles : u.files = t.files
      · rw [hfiles, put_files_self, (h q u hu).iff_same]
        exact hothers q u hq hu hfiles
      · rw [put_files_of_ne w p hfiles]
        exact h q u hu

/-- The same, where no descriptors are shared. -/
theorem tracked_put_fresh (h : w.Tracked) (hfresh : t.files = w.fresh) :
    (w.put p t f).Tracked ↔ t.Tracks f := by
  rw [tracked_put h]
  apply and_iff_left
  intro q u _ hu hfiles
  have hnumber := w.numbered q u hu
  omega

/-- The same, for a tracee that keeps its descriptors' table. -/
theorem tracked_put_own (h : w.Tracked) (t' : Process) (hfiles : t'.files = t.files) :
    (w.put p t' f).Tracked ↔ t'.Tracks f ∧ (w.Alone p t ∨ f.Same (w.files t.files)) := by
  rw [tracked_put h]
  apply and_congr_right
  intro _
  constructor
  · intro hothers
    by_cases halone : w.Alone p t
    · exact .inl halone
    · rw [Alone] at halone
      push Not at halone
      obtain ⟨q, u, hu, hshared, hq⟩ := halone
      have hsame := hothers q u hq hu (hshared.trans hfiles.symm)
      rw [hshared] at hsame
      exact .inr hsame
  · rintro (halone | hsame) q u hq hu hshared
    · exact absurd (halone q u hu (hshared.trans hfiles)) hq
    · rwa [hshared, hfiles]

end World

/-- What keeps a call from parting the two tables: there is room for a new socket, of which no
other tracee has the descriptor, no substitute is duplicated or closed in another way than by
`close`, and `close` takes none from another tracee. -/
def Call.Kept (blocked : Bool) (w : World) (p : ℕ) (t : Process) (answer : ℤ) : Call → Prop
  | .socket domain _ protocol =>
    Substituted blocked domain protocol → (w.files t.files).Free answer →
      t.fakeNetlinkFds.count < maxFakeNetlinkFds ∧ w.Alone p t
  | .dup fd _ => (w.files t.files).Substitute fd → ¬ (w.files t.files).Free answer
  | .dup2 fd target | .dup3 fd target _ =>
    (w.files t.files).descriptor fd ≠ none → 0 ≤ target → 0 ≤ answer →
      ((w.files t.files).Substitute fd ↔ (w.files t.files).Substitute target)
  | .setfd .. => True
  | .close fd => (w.files t.files).Substitute fd → w.Alone p t
  | .closeRange first last closeOnExec =>
    closeOnExec = false →
      ∀ fd, (first : ℤ) ≤ fd → fd ≤ (last : ℤ) → ¬ (w.files t.files).Substitute fd

/-- The calls that the tracer looks at. -/
def Call.Watched : Call → Prop
  | .socket .. | .close _ => True
  | .dup .. | .dup2 .. | .dup3 .. | .setfd .. | .closeRange .. => False

/-- The same for a step.  `execve` must not find a substitute that it closes. -/
def WorldOp.Kept (blocked : Bool) (w : World) : WorldOp → Prop
  | .call p answer c => ∀ t, w.procs p = some t → c.Kept blocked w p t answer
  | .execve p =>
    ∀ t, w.procs p = some t → ∀ fd, (w.files t.files).descriptor fd ≠ some ⟨.substitute, true⟩
  | .fork .. | .unshareFiles _ | .exit _ => True

namespace Files

/-- `dup2` or `dup3` of another number. -/
theorem same_perform_replace (f : Files) {target : ℤ} {closeOnExec : Bool} :
    ((match f.descriptor fd with
      | none => (f, -9)
      | some d => f.replace answer target ⟨d.refers, closeOnExec⟩).1).Same f ↔
      (f.descriptor fd ≠ none → 0 ≤ target → 0 ≤ answer →
        (f.Substitute fd ↔ f.Substitute target)) := by
  cases hd : f.descriptor fd with
  | none => exact iff_of_true (.refl f) (fun h => absurd rfl h)
  | some d =>
    rw [same_replace, substitute_of_descriptor hd]
    simp

/-- What a call other than `socket` and `close` needs. -/
theorem same_perform {blocked substitute : Bool} {c : Call} (hwatched : ¬ c.Watched) :
    ((w.files t.files).perform answer substitute c).1.Same (w.files t.files) ↔
      c.Kept blocked w p t answer := by
  cases c with
  | socket | close => exact absurd trivial hwatched
  | dup fd closeOnExec =>
    rw [Call.Kept, perform]
    cases hd : (w.files t.files).descriptor fd with
    | none => exact iff_of_true (.refl _) (fun hsub => absurd hd (descriptor_of_substitute hsub))
    | some d => rw [same_alloc, substitute_of_descriptor hd]
  | dup2 fd target =>
    rw [Call.Kept, perform]
    by_cases hfd : fd = target
    · subst hfd
      refine iff_of_true ?_ (fun _ _ _ => Iff.rfl)
      cases (w.files t.files).descriptor fd with
      | none => exact .refl _
      | some d =>
        simp only [if_true]
        exact .refl _
    · simp only [if_neg hfd]
      exact same_perform_replace _
  | dup3 fd target closeOnExec =>
    rw [Call.Kept, perform]
    by_cases hfd : fd = target
    · subst hfd
      rw [if_pos rfl]
      exact iff_of_true (.refl _) (fun _ _ _ => Iff.rfl)
    · rw [if_neg hfd]
      exact same_perform_replace _
  | setfd fd closeOnExec =>
    rw [Call.Kept, perform]
    refine iff_of_true ?_ trivial
    split
    · exact .refl _
    · exact same_setCloseOnExec _ _ _ _
  | closeRange first last closeOnExec =>
    rw [Call.Kept, perform]
    by_cases hempty : last < first
    · rw [if_pos hempty]
      refine iff_of_true (.refl _) (fun _ fd hfirst hlast => ?_)
      omega
    · rw [if_neg hempty]
      cases closeOnExec with
      | true =>
        exact iff_of_true (same_setCloseOnExec _ _ _ _) (fun hfalse => absurd hfalse (by simp))
      | false => rw [if_neg (by simp), same_closeRange, imp_iff_right rfl]

theorem substitute_perform_close (f : Files) (answer : ℤ) (substitute : Bool) (fd n : ℤ) :
    (f.perform answer substitute (.close fd)).1.Substitute n ↔ n ≠ fd ∧ f.Substitute n := by
  rw [perform]
  split
  · rename_i hd
    symm
    apply and_iff_right_of_imp
    rintro hn rfl
    exact descriptor_of_substitute hn hd
  · rw [substitute_closeRange]
    apply and_congr_left
    intro _
    omega

end Files

/-- The handlers of the other calls leave the table alone. -/
theorem Process.call_of_not_watched {blocked : Bool} {c : Call} (h : ¬ c.Watched) :
    t.call blocked f answer c = (t, (f.perform answer t.pendingFakeNetlinkSocket c).1) := by
  cases c with
  | socket | close => exact absurd trivial h
  | dup | dup2 | dup3 | setfd | closeRange => rfl

namespace World

variable {blocked : Bool} {w : World} {p : ℕ} {t : Process} {answer : ℤ}

/-- The table of the tracee stays, so its descriptors must. -/
theorem tracked_put_same (h : w.Tracked) (hp : w.procs p = some t) {t' : Process}
    (htable : t'.fakeNetlinkFds = t.fakeNetlinkFds) (hfiles : t'.files = t.files) :
    (w.put p t' f).Tracked ↔ f.Same (w.files t.files) := by
  rw [tracked_put_own h t' hfiles, Process.Tracks.congr htable, (h p t hp).iff_same]
  constructor
  · exact And.left
  · exact fun hsame => ⟨hsame, .inr hsame⟩

/-- The exit of a `socket` whose arguments were changed. -/
theorem tracked_substitute (h : w.Tracked) (hp : w.procs p = some t) (closeOnExec : Bool) :
    (w.put p
      ⟨t.fakeNetlinkFds.markFakeNetlinkFd
        ((w.files t.files).alloc answer ⟨.substitute, closeOnExec⟩).2, false, t.files⟩
      ((w.files t.files).alloc answer ⟨.substitute, closeOnExec⟩).1).Tracked ↔
      ((w.files t.files).Free answer →
        t.fakeNetlinkFds.count < maxFakeNetlinkFds ∧ w.Alone p t) := by
  have htracks := Process.tracks_iff.1 (h p t hp)
  by_cases hfree : (w.files t.files).Free answer
  · have hnew := Files.not_substitute_of_free hfree
    have hnotSame : ¬ ((w.files t.files).put answer ⟨.substitute, closeOnExec⟩).Same
        (w.files t.files) := by
      rw [Files.same_put _ hfree.1]
      exact fun hiff => hnew (hiff.1 rfl)
    simp only [Files.alloc, if_pos hfree]
    rw [tracked_put_own h ⟨_, false, t.files⟩ rfl, Process.tracks_iff, or_iff_left hnotSame,
      imp_iff_right hfree]
    apply and_congr_left
    intro _
    constructor
    · intro hboth
      -- the number of the new socket must have been entered
      have hat := (hboth answer).2 ((Files.substitute_put _ hfree.1 _ _).2 (by rw [if_pos rfl]))
      obtain hold | hmarked := (FakeNetlinkFds.mem_fds_mark ..).1 hat
      · exact absurd ((htracks answer).1 hold) hnew
      · exact hmarked.2.2
    · intro hcount fd
      rw [FakeNetlinkFds.mem_fds_mark, Files.substitute_put _ hfree.1, htracks]
      split
      · rename_i hfd
        exact iff_of_true (.inr ⟨hfd, hfree.1, hcount⟩) rfl
      · rename_i hfd
        simp [hfd]
  · simp only [Files.alloc, if_neg hfree]
    refine iff_of_true ?_ (fun hf => absurd hf hfree)
    rw [tracked_put_own h ⟨_, false, t.files⟩ rfl, Process.tracks_iff]
    refine ⟨fun fd => ?_, .inr (.refl _)⟩
    rw [FakeNetlinkFds.mem_fds_mark, htracks]
    simp

/-- The entry of `close`, and the descriptor that it closes. -/
theorem tracked_close (h : w.Tracked) (hp : w.procs p = some t)
    (hf : ∀ n, f.Substitute n ↔ n ≠ fd ∧ (w.files t.files).Substitute n) :
    (w.put p { t with fakeNetlinkFds := t.fakeNetlinkFds.unmarkFakeNetlinkFd fd } f).Tracked ↔
      ((w.files t.files).Substitute fd → w.Alone p t) := by
  have htracks := Process.tracks_iff.1 (h p t hp)
  have hself : Process.Tracks { t with fakeNetlinkFds := t.fakeNetlinkFds.unmarkFakeNetlinkFd fd }
      f := by
    rw [Process.tracks_iff]
    intro n
    rw [FakeNetlinkFds.mem_fds_unmark, hf, htracks]
  have hsame : f.Same (w.files t.files) ↔ ¬ (w.files t.files).Substitute fd := by
    constructor
    · intro hsame hsub
      exact ((hf fd).1 ((hsame fd).2 hsub)).1 rfl
    · intro hnot n
      rw [hf]
      apply and_iff_right_of_imp
      rintro hn rfl
      exact hnot hn
  have hown := tracked_put_own (p := p) (t := t) (f := f) h
    { t with fakeNetlinkFds := t.fakeNetlinkFds.unmarkFakeNetlinkFd fd } rfl
  rw [hown, and_iff_right hself, hsame, or_comm, imp_iff_not_or]

/-- What one call needs. -/
theorem tracked_call (h : w.Tracked) (hp : w.procs p = some t)
    (hsettled : t.pendingFakeNetlinkSocket = false) (c : Call) :
    (w.put p (t.call blocked (w.files t.files) answer c).1
      (t.call blocked (w.files t.files) answer c).2).Tracked ↔
      c.Kept blocked w p t answer := by
  by_cases hwatched : c.Watched
  · cases c with
    | socket domain type protocol =>
      by_cases hsub : Substituted blocked domain protocol
      · simp only [Process.call, Process.translateSyscallEnter, Process.translateSyscallExit,
          Files.perform, if_pos hsub, if_true]
        rw [tracked_substitute h hp, Call.Kept, imp_iff_right hsub]
      · simp only [Process.call, Process.translateSyscallEnter, Process.translateSyscallExit,
          Files.perform, if_neg hsub, hsettled, Bool.false_eq_true, if_false]
        rw [tracked_put_same h hp rfl rfl, Files.same_alloc]
        exact iff_of_true (fun hother => absurd hother (by simp)) (fun hin => absurd hin hsub)
    | close fd => exact tracked_close h hp ((w.files t.files).substitute_perform_close _ _ fd)
    | dup | dup2 | dup3 | setfd | closeRange => exact absurd hwatched id
  · rw [Process.call_of_not_watched hwatched]
    exact (tracked_put_same h hp rfl rfl).trans (Files.same_perform hwatched)

theorem pending_call (hsettled : t.pendingFakeNetlinkSocket = false) (f : Files) (c : Call) :
    (t.call blocked f answer c).1.pendingFakeNetlinkSocket = false := by
  by_cases hwatched : c.Watched
  · cases c with
    | socket domain type protocol =>
      by_cases hsub : Substituted blocked domain protocol
      · simp [Process.call, Process.translateSyscallEnter, Process.translateSyscallExit, hsub]
      · simp [Process.call, Process.translateSyscallEnter, Process.translateSyscallExit, hsub,
          hsettled]
    | close fd => exact hsettled
    | dup | dup2 | dup3 | setfd | closeRange => exact absurd hwatched id
  · rwa [Process.call_of_not_watched hwatched]

theorem Settled.put (h : w.Settled) (p : ℕ) (hsettled : t.pendingFakeNetlinkSocket = false)
    (f : Files) : (w.put p t f).Settled := by
  intro q u hu
  by_cases hq : q = p
  · subst hq
    rw [put_procs_self, Option.some.injEq] at hu
    rwa [← hu]
  · rw [put_procs_of_ne w hq] at hu
    exact h q u hu

theorem Settled.step (h : w.Settled) (o : WorldOp) : (w.step blocked o).Settled := by
  cases o with
  | call p answer c =>
    rw [World.step]
    cases hp : w.procs p with
    | none => exact h
    | some t => exact h.put p (pending_call (h p t hp) _ c) _
  | fork p child cloneFiles =>
    rw [World.step]
    split
    · exact h.put child rfl _
    · exact h
  | unshareFiles p =>
    rw [World.step]
    cases hp : w.procs p with
    | none => exact h
    | some t => exact h.put (t := { t with files := w.fresh }) p (h p t hp) _
  | execve p =>
    rw [World.step]
    cases hp : w.procs p with
    | none => exact h
    | some t => exact h.put (t := { t with files := w.fresh }) p (h p t hp) _
  | exit p => exact fun q u hu => h q u (procs_exit hu)

/-- A child finds in its table what its descriptors refer to. -/
theorem tracked_newChild (h : w.Tracked) (hp : w.procs p = some t) (child : ℕ)
    (cloneFiles : Bool) : (w.newChild t child cloneFiles).Tracked := by
  have hchild : Process.Tracks
      ⟨t.fakeNetlinkFds, false, if cloneFiles then t.files else w.fresh⟩ (w.files t.files) :=
    (Process.Tracks.congr rfl).2 (h p t hp)
  rw [newChild, tracked_put h]
  refine ⟨hchild, fun q u _ hu hfiles => ?_⟩
  cases cloneFiles with
  | true =>
    rw [if_pos rfl] at hfiles
    rw [hfiles]
    exact .refl _
  | false =>
    have hnumber := w.numbered q u hu
    simp only [Bool.false_eq_true, if_false] at hfiles
    omega

/-- **One step.** -/
theorem tracked_step (hsettled : w.Settled) (h : w.Tracked) (o : WorldOp) :
    (w.step blocked o).Tracked ↔ o.Kept blocked w := by
  cases o with
  | call p answer c =>
    rw [step, WorldOp.Kept]
    cases hp : w.procs p with
    | none => exact iff_of_true h (fun t ht => absurd ht (by simp))
    | some t =>
      simp only [Option.some.injEq, forall_eq']
      exact tracked_call h hp (hsettled p t hp) c
  | fork p child cloneFiles =>
    rw [step, WorldOp.Kept]
    refine iff_of_true ?_ trivial
    split
    · rename_i t hp _
      exact tracked_newChild h hp child cloneFiles
    · exact h
  | unshareFiles p =>
    rw [step, WorldOp.Kept]
    refine iff_of_true ?_ trivial
    cases hp : w.procs p with
    | none => exact h
    | some t => exact (tracked_put_fresh h rfl).2 ((Process.Tracks.congr rfl).2 (h p t hp))
  | execve p =>
    rw [step, WorldOp.Kept]
    cases hp : w.procs p with
    | none => exact iff_of_true h (fun t ht => absurd ht (by simp))
    | some t =>
      simp only [Option.some.injEq, forall_eq']
      rw [tracked_put_fresh h rfl, ← Files.same_exec, ← (h p t hp).iff_same]
      exact Process.Tracks.congr rfl
  | exit p =>
    rw [step, WorldOp.Kept]
    exact iff_of_true (fun q u hu => h q u (procs_exit hu)) trivial

theorem init_procs {p : ℕ} {inherited : ℕ → Option Bool} {t : Process}
    (h : (init p inherited).procs q = some t) : t = ⟨.empty, false, 0⟩ := by
  simp only [init, Function.update_apply] at h
  split at h
  · exact (Option.some.inj h).symm
  · exact absurd h (by simp)

theorem settled_init (p : ℕ) (inherited : ℕ → Option Bool) : (init p inherited).Settled := by
  intro q t h
  rw [init_procs h]

theorem tracked_init (p : ℕ) (inherited : ℕ → Option Bool) : (init p inherited).Tracked := by
  intro q t h
  rw [init_procs h, Process.tracks_iff]
  intro fd
  refine iff_of_false (by simp [FakeNetlinkFds.fds, FakeNetlinkFds.empty]) ?_
  rw [Files.substitute_iff]
  rintro ⟨d, hd, hrefers⟩
  simp only [init] at hd
  split at hd
  · obtain ⟨closeOnExec, -, rfl⟩ := Option.map_eq_some_iff.1 hd
    exact absurd hrefers (by simp)
  · exact absurd hd (by simp)

/-- **The tables of all tracees agree with the kernel's** throughout a run exactly when each step
of it keeps them so. -/
theorem tracked_iff (blocked : Bool) (p : ℕ) (inherited : ℕ → Option Bool) (ops : List WorldOp) :
    (∀ w ∈ states (step blocked) (init p inherited) ops, w.Tracked) ↔
      AllSteps (step blocked) (fun w o => o.Kept blocked w) (init p inherited) ops :=
  states_iff_allSteps_of_kept (I := Settled) (P := Tracked)
    (fun _ o hsettled _ _ => hsettled.step o) (fun _ o hsettled h => tracked_step hsettled h o)
    (settled_init p inherited) (tracked_init p inherited)

/-- The standard input takes the number of a substitute: `dup3` says nothing to the tracer. -/
theorem reused_number_emulated :
    ¬ ∀ w ∈ states (step true) (init 1 fun n => if n < 3 then some false else none)
      [.call 1 3 (.socket afNetlink 3 netlinkRoute), .call 1 3 (.dup3 0 3 false)], w.Tracked := by
  intro h
  have hlast := h _ (foldl_mem_states ..) 1 _ rfl
  have hemulated := (hlast.2 3).1 (by decide)
  exact absurd hemulated (by decide)

end World

end NeoProot.Netlink
