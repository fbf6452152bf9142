import NeoProot.Basic
import NeoProot.Syscall.Chain
import NeoProot.Tracee.MemExact
import NeoProot.Lib.LittleEndian
import Mathlib.Data.Fin.VecNotation

/-!
# Hidden files

The `hidden_files` extension takes the entries whose names start with `.proot` out of what
`getdents` and `getdents64` put in the buffer of the guest.  A block of such entries only would
look like the end of the directory: the call is made again, as a chained one.

## Main definitions

* `filterRecords` — the loop over the entries of a block.
* `handleGetdents` — what is done at the exit of a call.
* `DirRecord` — an entry as the kernel writes it.
* `filterRecords_bytes` — the loop keeps the visible ones.
-/

namespace NeoProot.HiddenFiles
open Mem PagedMemory Chain

/-- `HIDDEN_PREFIX`. -/
def hiddenPrefix : List UInt8 := [46, 112, 114, 111, 111, 116]

/-- The two calls. -/
inductive Kind
  | getdents | getdents64
  deriving DecidableEq, Repr

/-- Where the name of an entry is: `d_name` of `struct linux_dirent` and of
`struct linux_dirent64`. -/
def Kind.nameOffset : Kind → ℕ
  | .getdents => 18
  | .getdents64 => 19

/-- `d_reclen` of the entry at the start. -/
def reclen (orig : List UInt8) : ℕ := LittleEndian.decode ((orig.drop 16).take 2)

/-- `has_prefix` of the name of the entry at the start. -/
def isHidden (kind : Kind) (orig : List UInt8) : Bool :=
  (orig.drop kind.nameOffset).take hiddenPrefix.length == hiddenPrefix

/-- The loop: what it copies of so many entries at most. -/
def filterRecords (kind : Kind) : ℕ → List UInt8 → List UInt8
  | 0, _ => []
  | fuel + 1, orig =>
    if orig = [] then []
    else
      let kept := if isHidden kind orig then [] else orig.take (reclen orig)
      kept ++ filterRecords kind fuel (orig.drop (reclen orig))

/-- What is known of the directory: `translate_path` of the root, and `readlink_proc_pid_fd` of
its descriptor. -/
structure Directory where
  root : Option CStr
  path : Option CStr

/-- `belongs_to_guestfs_fast`. -/
def belongsToGuestfsFast (root : Option CStr) (path : CStr) : Bool :=
  match root with
  | none => false
  | some root => if root = ['/'] then true else root.isPrefixOf path

/-- The numbers of the system calls. -/
structure Numbers (Sysnum : Type*) where
  abi : Sysnums Sysnum
  number : Kind → Sysnum
  distinct : number .getdents ≠ number .getdents64

/-- What a handler does: its status, the memory of the guest, and what it asks for. -/
structure Handler (Sysnum : Type*) where
  status : ℤ
  memory : TraceeMemory
  requests : List (Request Sysnum)

section

variable {Sysnum : Type*} [DecidableEq Sysnum] (numbers : Numbers Sysnum) (access : Access)
  (dir : Directory)

/-- `get_sysnum (tracee, ORIGINAL)`, if it is one of the two. -/
def Numbers.kind (original : Regs) : Option Kind :=
  if numbers.abi.translate (original.reg .sysargNum) = numbers.number .getdents then
    some .getdents
  else if numbers.abi.translate (original.reg .sysargNum) = numbers.number .getdents64 then
    some .getdents64
  else none

/-- The sign of a result: `(long) result <= 0`. -/
def NotPositive (result : UInt64) : Prop := result = 0 ∨ 2 ^ 63 ≤ result.toNat

instance (result : UInt64) : Decidable (NotPositive result) :=
  inferInstanceAs (Decidable (_ ∨ _))

/-- The directory is one whose entries are looked at: its buffer is not too large and it belongs
to the guest. -/
def Looked (count : UInt64) : Prop :=
  count ≠ 0 ∧ count.toNat ≤ pathMax * 1024 ∧ dir.path.any (belongsToGuestfsFast dir.root) = true

instance (count : UInt64) : Decidable (Looked dir count) := inferInstanceAs (Decidable (_ ∧ _))

/-- `handle_getdents`. -/
def handleGetdents (original current : Regs) (m : TraceeMemory) : Handler Sysnum :=
  match numbers.kind original with
  | none => ⟨0, m, []⟩
  | some kind =>
    let result := current.reg sysargResult
    if NotPositive result then ⟨toInt result.toNat, m, []⟩
    else
      let bufAddr := current.reg (.sysarg 1)
      let count := current.reg (.sysarg 2)
      if count = 0 ∨ pathMax * 1024 < count.toNat then ⟨0, m, []⟩
      else
        match dir.path with
        | none => ⟨0, m, []⟩
        | some path =>
          if !belongsToGuestfsFast dir.root path then ⟨0, m, []⟩
          else
            match readData access m bufAddr.toNat result.toNat with
            | none => ⟨-1, m, []⟩
            | some orig =>
              let filtered := filterRecords kind orig.length orig
              if filtered.length = 0 then
                ⟨0, m, [.register ⟨numbers.number kind,
                  ![original.reg (.sysarg 0), bufAddr, count, 0, 0, 0]⟩]⟩
              else
                match writeData access m bufAddr.toNat filtered with
                | (m', false) => ⟨-1, m', []⟩
                | (m', true) => ⟨0, m', [.poke sysargResult (UInt64.ofNat filtered.length)]⟩

/-- `hidden_files_callback` at the exit of a call: the status of the handler is the result of the
guest's own call, and it is not used for a chained one. -/
def hiddenFilesCallback (chained : Bool) (original current : Regs) (m : TraceeMemory) :
    TraceeMemory × List (Request Sysnum) :=
  let h := handleGetdents numbers access dir original current m
  (h.memory, if chained = false ∧ h.status < 0 then
    h.requests ++ [.poke sysargResult (UInt64.ofInt h.status)] else h.requests)

end

/-! ### Entries -/

/-- An entry as the kernel writes it: its length is where it says it is, and a multiple of eight,
and its name ends in a NUL. -/
structure DirRecord (kind : Kind) where
  bytes : List UInt8
  name : List UInt8
  aligned : bytes.length % 8 = 0
  reclen_eq : reclen bytes = bytes.length
  named : name ++ [0] <+: bytes.drop kind.nameOffset
  noNul : 0 ∉ name

/-- The name does not start with the prefix of the hidden ones. -/
def DirRecord.visible {kind : Kind} (r : DirRecord kind) : Bool := !hiddenPrefix.isPrefixOf r.name

/-- The bytes of some entries, one behind the other. -/
def bytesOf {kind : Kind} (rs : List (DirRecord kind)) : List UInt8 :=
  rs.flatMap DirRecord.bytes

section

variable {kind : Kind} (r : DirRecord kind) (rs : List (DirRecord kind)) (more : List UInt8)

theorem nameOffset_lt_length : kind.nameOffset < r.bytes.length := by
  have hle := r.named.length_le
  simp only [List.length_append, List.length_drop, List.length_singleton] at hle
  omega

theorem reclen_append : reclen (r.bytes ++ more) = r.bytes.length := by
  have hlt := nameOffset_lt_length r
  have hle : 18 ≤ kind.nameOffset := by cases kind <;> decide
  rw [reclen, List.drop_append_of_le_length (by omega),
    List.take_append_of_le_length (by rw [List.length_drop]; omega)]
  exact r.reclen_eq

/-- A word without NULs is read at the start of a string if the string starts with it. -/
theorem take_eq_iff {p l : List UInt8} (hp : 0 ∉ p) {rest : List UInt8} :
    (l ++ 0 :: rest).take p.length = p ↔ p <+: l := by
  constructor
  · intro h
    have hprefixed : p <+: l ++ 0 :: rest := by
      rw [← h]
      exact List.take_prefix _ _
    by_cases hle : p.length ≤ l.length
    · exact List.prefix_of_prefix_length_le hprefixed (List.prefix_append _ _) hle
    · have hstring : l ++ [0] <+: l ++ 0 :: rest := ⟨rest, by simp⟩
      have hlong : (l ++ [0]).length ≤ p.length := by
        rw [List.length_append, List.length_singleton]
        omega
      have hinside := List.prefix_of_prefix_length_le hstring hprefixed hlong
      exact absurd (hinside.subset (by simp)) hp
  · intro h
    exact (List.prefix_iff_eq_take.1 (h.trans (List.prefix_append _ _))).symm

/-- Whether an entry is hidden is decided by its name, however short the name is. -/
theorem isHidden_append : isHidden kind (r.bytes ++ more) = !r.visible := by
  have hlt := nameOffset_lt_length r
  obtain ⟨rest, hrest⟩ := r.named
  have hname : (r.bytes ++ more).drop kind.nameOffset = r.name ++ 0 :: (rest ++ more) := by
    rw [List.drop_append_of_le_length hlt.le, ← hrest]
    simp
  have hiff := @take_eq_iff hiddenPrefix r.name (by decide) (rest ++ more)
  rw [isHidden, hname, DirRecord.visible, Bool.not_not, Bool.eq_iff_iff, beq_iff_eq, hiff,
    List.isPrefixOf_iff_prefix]

/-- The loop keeps the visible entries. -/
theorem filterRecords_bytes {fuel : ℕ} (hfuel : rs.length ≤ fuel) :
    filterRecords kind fuel (bytesOf rs) = bytesOf (rs.filter DirRecord.visible) := by
  induction rs generalizing fuel with
  | nil => cases fuel <;> rfl
  | cons r rs ih =>
    cases fuel with
    | zero => cases hfuel
    | succ fuel =>
      have hbytes : bytesOf (r :: rs) = r.bytes ++ bytesOf rs := rfl
      have hne : r.bytes ++ bytesOf rs ≠ [] := by
        have hlt := nameOffset_lt_length r
        intro h
        rw [(List.append_eq_nil_iff.1 h).1] at hlt
        cases hlt
      rw [filterRecords, hbytes, if_neg hne, isHidden_append, reclen_append,
        List.drop_left, ih (Nat.le_of_succ_le_succ hfuel), List.take_left]
      cases hvisible : r.visible with
      | false =>
        rw [List.filter_cons_of_neg (by simp [hvisible])]
        rfl
      | true =>
        rw [List.filter_cons_of_pos hvisible]
        rfl

theorem length_le_length_bytesOf : rs.length ≤ (bytesOf rs).length := by
  induction rs with
  | nil => exact Nat.le_refl 0
  | cons r rs ih =>
    have hlt := nameOffset_lt_length r
    have hbytes : bytesOf (r :: rs) = r.bytes ++ bytesOf rs := rfl
    rw [hbytes, List.length_append, List.length_cons]
    omega

theorem length_bytesOf_filter_le :
    (bytesOf (rs.filter DirRecord.visible)).length ≤ (bytesOf rs).length := by
  induction rs with
  | nil => exact Nat.le_refl 0
  | cons r rs ih =>
    have hbytes : ∀ rs' : List (DirRecord kind), bytesOf (r :: rs') = r.bytes ++ bytesOf rs' :=
      fun _ => rfl
    cases hvisible : r.visible with
    | false =>
      rw [List.filter_cons_of_neg (by simp [hvisible]), hbytes, List.length_append]
      omega
    | true =>
      rw [List.filter_cons_of_pos hvisible, hbytes, hbytes, List.length_append, List.length_append]
      omega

theorem aligned_bytesOf : (bytesOf rs).length % 8 = 0 := by
  induction rs with
  | nil => rfl
  | cons r rs ih =>
    have haligned := r.aligned
    have hbytes : bytesOf (r :: rs) = r.bytes ++ bytesOf rs := rfl
    rw [hbytes, List.length_append]
    omega

end

/-! ### One call -/

section

variable {Sysnum : Type*} [DecidableEq Sysnum] {numbers : Numbers Sysnum} {access : Access}
  {dir : Directory} {original current : Regs} {m : TraceeMemory} {kind : Kind}

/-- Words are read as they are. -/
theorem readData_aligned {a n : ℕ} (haligned : n % 8 = 0) (hmapped : m.Mapped a n) :
    readData access m a n = some (m.values a n) := by
  have hround : roundUp n = n := by
    rw [roundUp]
    omega
  have hexact := (@readExact_iff access m a n).2 fun h => .inl (by rwa [hround])
  rw [ReadExact, if_pos hmapped] at hexact
  exact hexact

theorem writeData_aligned {a : ℕ} {src : List UInt8} (haligned : src.length % 8 = 0)
    (hmapped : m.Mapped a src.length) : writeData access m a src = (m.put a src, true) := by
  have hround : roundUp src.length = src.length := by
    rw [roundUp]
    omega
  have hexact := (@writeExact_iff access m a src).2 fun h => .inl (by rwa [hround])
  exact Prod.ext (hexact.written hmapped) (hexact.succeeds.2 hmapped)

/-- The result of a call that failed, or at the end of the directory. -/
def errorResult (errno : Fin 4096) : UInt64 := 0 - UInt64.ofNat errno

theorem toNat_errorResult (errno : Fin 4096) :
    (errorResult errno).toNat = (2 ^ 64 - errno.val) % 2 ^ 64 := by
  have herrno := errno.isLt
  have hofNat : (UInt64.ofNat errno).toNat = errno.val := by
    rw [UInt64.toNat_ofNat']
    omega
  rw [errorResult, UInt64.toNat_sub, hofNat]
  simp

theorem toInt_errorResult (errno : Fin 4096) :
    toInt (errorResult errno).toNat = -(errno.val : ℤ) := by
  have herrno := errno.isLt
  rw [toNat_errorResult]
  change Int.bmod (((2 ^ 64 - errno.val) % 2 ^ 64 : ℕ) : ℤ) (2 ^ 32) = _
  by_cases hzero : errno.val = 0
  · rw [hzero]
    decide
  · have hshift : (((2 ^ 64 - errno.val) % 2 ^ 64 : ℕ) : ℤ) =
        -(errno.val : ℤ) + (2 ^ 32 : ℕ) * 2 ^ 32 := by omega
    rw [hshift, Int.add_mul_bmod_self_left]
    exact Int.bmod_eq_of_le (by omega) (by omega)

theorem notPositive_errorResult (errno : Fin 4096) : NotPositive (errorResult errno) := by
  have herrno := errno.isLt
  have htoNat := toNat_errorResult errno
  by_cases hzero : errno.val = 0
  · left
    rw [← UInt64.toNat_inj, htoNat, hzero]
    rfl
  · right
    omega

theorem ofInt_toInt_errorResult (errno : Fin 4096) :
    UInt64.ofInt (toInt (errorResult errno).toNat) = errorResult errno := by
  have herrno := errno.isLt
  rw [toInt_errorResult, ← UInt64.toNat_inj, toNat_errorResult, UInt64.ofInt,
    UInt64.toNat_ofNat']
  omega

/-- A result that is an error, or the end of the directory, is left. -/
theorem hiddenFilesCallback_error {chained : Bool} {errno : Fin 4096}
    (hkind : numbers.kind original = some kind)
    (hresult : current.reg sysargResult = errorResult errno) :
    (hiddenFilesCallback numbers access dir chained original current m).1 = m ∧
      ((hiddenFilesCallback numbers access dir chained original current m).2 = [] ∨
        (hiddenFilesCallback numbers access dir chained original current m).2 =
          [.poke sysargResult (errorResult errno)]) := by
  have hhandle : handleGetdents numbers access dir original current m =
      ⟨toInt (errorResult errno).toNat, m, []⟩ := by
    rw [handleGetdents, hkind]
    dsimp only
    rw [hresult, if_pos (notPositive_errorResult errno)]
  rw [hiddenFilesCallback, hhandle]
  refine ⟨rfl, ?_⟩
  dsimp only
  split
  · right
    rw [ofInt_toInt_errorResult, List.nil_append]
  · exact .inl rfl

/-- A status that is not negative is not used. -/
theorem hiddenFilesCallback_eq {chained : Bool} {m' : TraceeMemory}
    {requests : List (Request Sysnum)}
    (h : handleGetdents numbers access dir original current m = ⟨0, m', requests⟩) :
    hiddenFilesCallback numbers access dir chained original current m = (m', requests) := by
  rw [hiddenFilesCallback, h]
  dsimp only
  rw [if_neg]
  exact fun hstatus => absurd hstatus.2 (by decide)

/-- A block that is not looked at is left. -/
theorem hiddenFilesCallback_not_looked {chained : Bool} (hkind : numbers.kind original = some kind)
    (hpositive : ¬ NotPositive (current.reg sysargResult))
    (hlooked : ¬ Looked dir (current.reg (.sysarg 2))) :
    hiddenFilesCallback numbers access dir chained original current m = (m, []) := by
  apply hiddenFilesCallback_eq
  rw [handleGetdents, hkind]
  dsimp only
  rw [if_neg hpositive]
  split
  · rfl
  · rename_i hcount
    obtain ⟨hzero, hlarge⟩ := not_or.1 hcount
    cases hpath : dir.path with
    | none => rfl
    | some path =>
      have hnot : belongsToGuestfsFast dir.root path = false := by
        by_contra h
        refine hlooked ⟨hzero, Nat.not_lt.1 hlarge, ?_⟩
        rw [hpath]
        exact Bool.eq_true_of_not_eq_false h
      dsimp only
      rw [hnot]
      rfl

/-- The chained call that asks for another block. -/
def repeated (numbers : Numbers Sysnum) (kind : Kind) (original current : Regs) :
    ChainedSyscall Sysnum :=
  ⟨numbers.number kind,
    ![original.reg (.sysarg 0), current.reg (.sysarg 1), current.reg (.sysarg 2), 0, 0, 0]⟩

theorem bytesOf_eq_nil_iff {rs : List (DirRecord kind)} : bytesOf rs = [] ↔ rs = [] := by
  constructor
  · intro h
    have hle := length_le_length_bytesOf rs
    rw [h] at hle
    exact List.length_eq_zero_iff.1 (Nat.le_zero.1 hle)
  · intro h
    rw [h]
    rfl

/-- A block that is looked at: its visible entries are written in front, or another block is
asked for. -/
theorem hiddenFilesCallback_block {chained : Bool} (hkind : numbers.kind original = some kind)
    (hlooked : Looked dir (current.reg (.sysarg 2))) {rs : List (DirRecord kind)}
    (hne : rs ≠ []) (hfits : (bytesOf rs).length < 2 ^ 31)
    (hresult : current.reg sysargResult = UInt64.ofNat (bytesOf rs).length)
    (hmapped : m.Mapped (current.reg (.sysarg 1)).toNat (bytesOf rs).length)
    (hvalues : m.values (current.reg (.sysarg 1)).toNat (bytesOf rs).length = bytesOf rs) :
    hiddenFilesCallback numbers access dir chained original current m =
      if rs.filter DirRecord.visible = [] then
        (m, [.register (repeated numbers kind original current)])
      else
        (m.put (current.reg (.sysarg 1)).toNat (bytesOf (rs.filter DirRecord.visible)),
          [.poke sysargResult (UInt64.ofNat (bytesOf (rs.filter DirRecord.visible)).length)]) := by
  have htoNat : (UInt64.ofNat (bytesOf rs).length).toNat = (bytesOf rs).length := by
    rw [UInt64.toNat_ofNat']
    omega
  have hpositive : ¬ NotPositive (current.reg sysargResult) := by
    have hpos : 0 < (bytesOf rs).length :=
      List.length_pos_iff.2 (mt bytesOf_eq_nil_iff.1 hne)
    rw [hresult, NotPositive, ← UInt64.toNat_inj, htoNat, UInt64.toNat_zero]
    omega
  obtain ⟨hzero, hlarge, hany⟩ := hlooked
  obtain ⟨path, hpath, hbelongs⟩ := (Option.any_eq_true _ _).1 hany
  have hread : readData access m (current.reg (.sysarg 1)).toNat
      (current.reg sysargResult).toNat = some (bytesOf rs) := by
    rw [hresult, htoNat, readData_aligned (aligned_bytesOf rs) hmapped, hvalues]
  have hfilter : filterRecords kind (bytesOf rs).length (bytesOf rs) =
      bytesOf (rs.filter DirRecord.visible) :=
    filterRecords_bytes rs (length_le_length_bytesOf rs)
  have hwrite : writeData access m (current.reg (.sysarg 1)).toNat
      (bytesOf (rs.filter DirRecord.visible)) =
        (m.put (current.reg (.sysarg 1)).toNat (bytesOf (rs.filter DirRecord.visible)), true) :=
    writeData_aligned (aligned_bytesOf _) (hmapped.mono (length_bytesOf_filter_le rs))
  have hhandle : handleGetdents numbers access dir original current m =
      if rs.filter DirRecord.visible = [] then
        ⟨0, m, [.register (repeated numbers kind original current)]⟩
      else
        ⟨0, m.put (current.reg (.sysarg 1)).toNat (bytesOf (rs.filter DirRecord.visible)),
          [.poke sysargResult (UInt64.ofNat (bytesOf (rs.filter DirRecord.visible)).length)]⟩ := by
    rw [handleGetdents, hkind]
    dsimp only
    rw [if_neg hpositive, if_neg (not_or.2 ⟨hzero, Nat.not_lt.2 hlarge⟩), hpath]
    dsimp only
    rw [hbelongs, hread]
    dsimp only [Bool.not_true]
    rw [hfilter, hwrite]
    by_cases hnone : rs.filter DirRecord.visible = []
    · rw [if_pos hnone, hnone]
      rfl
    · have hlength : (bytesOf (rs.filter DirRecord.visible)).length ≠ 0 := by
        rw [Ne, List.length_eq_zero_iff, bytesOf_eq_nil_iff]
        exact hnone
      rw [if_neg hnone, if_neg hlength]
      rfl
  by_cases hnone : rs.filter DirRecord.visible = []
  · rw [if_pos hnone] at hhandle ⊢
    exact hiddenFilesCallback_eq hhandle
  · rw [if_neg hnone] at hhandle ⊢
    exact hiddenFilesCallback_eq hhandle

end

end NeoProot.HiddenFiles
