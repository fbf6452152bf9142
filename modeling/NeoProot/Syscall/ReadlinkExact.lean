import NeoProot.Syscall.Readlink

/-!
# Which results of `readlink` are exact

A target that is written back with its terminator is exact unless the two fill the buffer together:
then the terminator is counted and reported.  A result that the kernel has cut off is exact if it is
read again; else its guest name is made of a part of the path.  `exact_iff` says when the guest
finds its target in the buffer.

## Main definitions

* `Readlink.Sound` — the condition on a call.
-/

namespace NeoProot

variable {path : CStr} {n : ℕ}

/-! ### The values that `detranslate_path` returns -/

/-- A cut off alias leaves a path of the length that is returned. -/
theorem normalizeCwdAliasPath_status (fs : FileSystemNameSpace) (path : CStr) :
    (fs.normalizeCwdAliasPath path).1 = 0 ∧ (fs.normalizeCwdAliasPath path).2 = path ∨
      (fs.normalizeCwdAliasPath path).1 = (fs.normalizeCwdAliasPath path).2.length + 1 := by
  rw [FileSystemNameSpace.normalizeCwdAliasPath.eq_def]
  split
  · exact .inl ⟨rfl, rfl⟩
  · split
    · exact .inl ⟨rfl, rfl⟩
    · split
      · exact .inr rfl
      · apply Or.inr
        rw [List.length_drop]

theorem detranslateFollowing_status {fs : FileSystemNameSpace} {followBinding hasReferrer : Bool}
    {path' : CStr} (h : detranslateFollowing fs followBinding hasReferrer path = .ok (n, path')) :
    n = 0 ∨ n = path'.length + 1 := by
  simp only [detranslateFollowing] at h
  split at h
  · exact .inl (Prod.mk.inj (Except.ok.inj h)).1.symm
  · rename_i substituted _
    obtain ⟨hn, rfl⟩ := Prod.mk.inj (Except.ok.inj h)
    apply Or.inr
    rw [← hn]
    obtain ⟨hzero, -⟩ | hstatus := normalizeCwdAliasPath_status fs substituted
    · rw [if_neg (not_not_intro hzero)]
    · rw [if_pos (by omega), hstatus]
  · split at h
    · obtain ⟨rfl, rfl⟩ := Prod.mk.inj (Except.ok.inj h)
      exact .inr rfl
    · obtain ⟨rfl, rfl⟩ := Prod.mk.inj (Except.ok.inj h)
      exact .inr rfl
    · split at h
      · exact .inl (Prod.mk.inj (Except.ok.inj h)).1.symm
      · cases h

/-- `detranslate_path` returns 0 or the size of the path, its terminator included. -/
theorem detranslatePath_status {tracee : Tracee} {getTracee : ℤ → Option Tracee} {path' : CStr}
    {referrer : Option CStr} (h : detranslatePath tracee getTracee path referrer = .ok (n, path')) :
    n = 0 ∨ n = path'.length + 1 := by
  simp only [detranslatePath] at h
  repeat' split at h
  all_goals first
    | exact detranslateFollowing_status h
    | cases h
  · exact .inl rfl
  · exact .inr rfl
  · exact .inr rfl

namespace Readlink

variable {c : Readlink} {target referer : CStr} {procFd : Option (ℤ × ℤ)}

theorem repaired_status (h : c.repaired = some (n, path)) : n = 0 ∨ n = path.length + 1 := by
  simp only [repaired] at h
  split at h
  · split at h
    · cases h
    · obtain ⟨failedTarget, -, hname⟩ := Option.bind_eq_some_iff.1 h
      cases hstatus : detranslatePath c.tracee c.getTracee failedTarget _ with
      | error e =>
        rw [hstatus] at hname
        cases hname
      | ok named =>
        rw [hstatus] at hname
        cases hname
        exact detranslatePath_status hstatus
  · cases h

/-- What is written back is written with its terminator. -/
theorem guestName_status {referee : CStr}
    (h : c.guestName referer procFd referee = .ok (some (n, path))) : n = path.length + 1 := by
  simp only [guestName] at h
  split at h
  · cases h
  · split at h
    · cases h
    · cases h
      rfl
  · rename_i hzero hstatus
    cases h
    exact (detranslatePath_status hstatus).resolve_left hzero

/-- A link that is read again has its own guest name, with its length. -/
theorem fullName_eq_some {full : CStr} (h : c.fullName referer = some (n, full)) :
    n = full.length ∧ ∃ again, c.reread referer = some again ∧
      detranslatePath c.tracee c.getTracee again (some referer) = .ok (n + 1, full) := by
  obtain ⟨again, hagain, hname⟩ := Option.bind_eq_some_iff.1 h
  cases hstatus : detranslatePath c.tracee c.getTracee again (some referer) with
  | error e =>
    rw [hstatus] at hname
    cases hname
  | ok named =>
    obtain ⟨status, path⟩ := named
    rw [hstatus] at hname
    cases status with
    | zero => cases hname
    | succ status =>
      cases hname
      refine ⟨?_, again, hagain, hstatus⟩
      obtain hzero | hsize := detranslatePath_status hstatus
      · cases hzero
      · exact Nat.succ.inj hsize

/-! ### Memory -/

/-- The kernel writes inside the buffer. -/
theorem kernel_beyond (c : Readlink) {i : ℕ} (h : c.size.toNat ≤ i) :
    c.kernel.2 i = c.before i := by
  rw [kernel]
  cases c.link with
  | error e => rfl
  | ok host =>
    apply Memory.overwrite_of_le
    rw [List.length_take]
    omega

/-- A call that returns the length of what it has put into the buffer is exact if that is the
beginning of the target. -/
theorem exact_iff_of_exit {memory : Memory Char} {data : CStr}
    (hexit : c.exit = (.ok n, memory.overwrite data)) (hn : n ≤ data.length)
    (hdata : data.length ≤ c.size.toNat) (hbeyond : ∀ i, c.size.toNat ≤ i → memory i = c.before i) :
    c.Exact target ↔ n = min target.length c.size.toNat ∧ data.take n = target.take n := by
  constructor
  · intro h
    have hlength := h.length
    rw [hexit] at hlength
    have hsize : n = min target.length c.size.toNat := Except.ok.inj hlength
    refine ⟨hsize, List.ext_getElem? fun i => ?_⟩
    rw [List.getElem?_take, List.getElem?_take]
    by_cases hi : i < n
    · rw [if_pos hi, if_pos hi, ← h.content i (by omega), hexit]
      exact (memory.overwrite_of_lt (by omega)).symm
    · rw [if_neg hi, if_neg hi]
  · rintro ⟨hsize, hbegin⟩
    have hcontent : ∀ i, i < n → some (c.exit.2 i) = target[i]? := by
      intro i hi
      have hsame := congrArg (fun l => l[i]?) hbegin
      rw [List.getElem?_take_of_lt hi, List.getElem?_take_of_lt hi] at hsame
      rw [hexit, ← hsame]
      exact memory.overwrite_of_lt (by omega)
    refine ⟨?_, ?_, ?_, ?_⟩
    · rw [hexit, hsize]
    · intro i hi
      exact hcontent i (by omega)
    · intro i hi
      rw [hexit]
      exact (memory.overwrite_of_le (by omega)).trans (hbeyond i hi)
    · intro hshort
      have hall : n = target.length := by omega
      rw [(Memory.read_eq_take_iff _ (Nat.le_refl _)).2 fun i hi => hcontent i (by omega),
        List.take_length]

/-! ### One result -/

/-- A target for a path buffer. -/
structure IsTarget (target : CStr) : Prop where
  length : target.length < pathMax
  nul : '\x00' ∉ target

theorem writeData_of_room {data : CStr} (h : data.length ≤ c.room) (n : ℕ) :
    c.writeData data n = (.ok n, c.kernel.2.overwrite data) := by
  rw [writeData, if_pos h]

/-- A result with as much of the target as fits is exact. -/
theorem exact_of_writeData (htarget : IsTarget target) (hroom : c.size.toNat ≤ c.room)
    (hexit : c.exit = c.writeData (target.take (min target.length c.maxSize))
      (min target.length c.maxSize)) : c.Exact target := by
  have hmax : min target.length c.maxSize = min target.length c.size.toNat := by
    have hlength := htarget.length
    rw [maxSize]
    omega
  have hdata : (target.take (min target.length c.size.toNat)).length =
      min target.length c.size.toNat := by
    rw [List.length_take]
    omega
  rw [hmax, writeData_of_room (by omega)] at hexit
  refine (exact_iff_of_exit hexit (by omega) (by omega) fun i => c.kernel_beyond).2 ⟨rfl, ?_⟩
  rw [List.take_take, Nat.min_self]

/-- The result of the kernel is exact if the target begins as the link of the host does. -/
theorem exact_kernel_iff {host : CStr} (hlink : c.link = .ok host) (hexit : c.exit = c.kernel) :
    c.Exact target ↔ host.take c.size.toNat = target.take c.size.toNat := by
  have hkernel : c.exit = (.ok (min host.length c.size.toNat),
      Memory.overwrite c.before (host.take c.size.toNat)) := by
    rw [hexit, kernel, hlink]
  have hdata : (host.take c.size.toNat).length = min host.length c.size.toNat := by
    rw [List.length_take]
    omega
  rw [exact_iff_of_exit hkernel (by omega) (by omega) fun _ _ => rfl]
  constructor
  · rintro ⟨hsize, hbegin⟩
    rw [List.take_take] at hbegin
    have hhost : host.take (min host.length c.size.toNat) = host.take c.size.toNat := by
      rw [Nat.min_comm, ← List.take_eq_take_min]
    have htarget : target.take (min target.length c.size.toNat) = target.take c.size.toNat := by
      rw [Nat.min_comm, ← List.take_eq_take_min]
    rw [← hhost, ← htarget, ← hsize, ← hbegin]
    congr 1
    omega
  · intro hbegin
    have hlength := congrArg List.length hbegin
    rw [List.length_take, List.length_take] at hlength
    refine ⟨by omega, ?_⟩
    rw [hbegin, List.take_take]
    congr 1
    omega

/-- A name that is written with its terminator in a buffer that has room for both. -/
theorem exact_terminated_iff (hsize : path.length < c.size.toNat) (hroom : c.size.toNat ≤ c.room)
    (hexit : c.exit = c.writeData (path ++ ['\x00']) path.length) :
    c.Exact target ↔ path.take c.size.toNat = target.take c.size.toNat := by
  have hdata : (path ++ ['\x00']).length = path.length + 1 := by
    rw [List.length_append]
    rfl
  rw [writeData_of_room (by omega)] at hexit
  rw [exact_iff_of_exit hexit (by omega) (by omega) fun i => c.kernel_beyond, List.take_left,
    List.take_of_length_le (Nat.le_of_lt hsize)]
  constructor
  · rintro ⟨hlength, hbegin⟩
    rw [hbegin]
    rw [List.take_of_length_le (by omega), List.take_of_length_le (by omega)]
  · intro hbegin
    have hlength := congrArg List.length hbegin
    rw [List.length_take] at hlength
    have hwhole : path = target := by
      rw [hbegin, List.take_of_length_le (by omega)]
    rw [hwhole] at hsize ⊢
    exact ⟨by omega, List.take_length.symm⟩

/-- A name that does not fit is cut off. -/
theorem exact_cut_iff (htarget : IsTarget target) (hroom : c.size.toNat ≤ c.room)
    (hlong : c.maxSize ≤ path.length)
    (hexit : c.exit = c.writeData (path.take c.maxSize) c.maxSize) :
    c.Exact target ↔ path.take c.size.toNat = target.take c.size.toNat := by
  have hlength := htarget.length
  have hmax : c.maxSize = min c.size.toNat pathMax := rfl
  have hdata : (path.take c.maxSize).length = c.maxSize := by
    rw [List.length_take]
    omega
  rw [writeData_of_room (by omega)] at hexit
  rw [exact_iff_of_exit hexit (by omega) (by omega) fun i => c.kernel_beyond, List.take_take,
    Nat.min_self]
  constructor
  · rintro ⟨hsize, hbegin⟩
    have hfull : c.maxSize = c.size.toNat := by omega
    rw [← hfull]
    exact hbegin
  · intro hbegin
    have hsame := congrArg List.length hbegin
    rw [List.length_take, List.length_take] at hsame
    have hfull : c.maxSize = c.size.toNat := by omega
    rw [hfull]
    exact ⟨by omega, hbegin⟩

/-- A result that is read again is exact if the target begins as it does. -/
theorem exact_writeFull_iff (htarget : IsTarget target) (hroom : c.size.toNat ≤ c.room)
    (hexit : c.exit = c.writeFull path.length path) :
    c.Exact target ↔ path.take c.size.toNat = target.take c.size.toNat := by
  have hmax : c.maxSize = min c.size.toNat pathMax := rfl
  rw [writeFull] at hexit
  by_cases hfits : path.length + 1 ≤ c.maxSize
  · rw [if_pos hfits, List.take_of_length_le (by rw [List.length_append]; rfl)] at hexit
    exact exact_terminated_iff (by omega) hroom hexit
  · rw [if_neg hfits] at hexit
    exact exact_cut_iff htarget hroom (by omega) hexit

/-- A result that is written back is exact if the target begins as it does, and it does not fill
the buffer together with its terminator. -/
theorem exact_writeBack_iff (htarget : IsTarget target) (hroom : c.size.toNat ≤ c.room)
    (hexit : c.exit = c.writeBack (path.length + 1) path) :
    c.Exact target ↔
      path.length + 1 ≠ c.maxSize ∧ path.take c.size.toNat = target.take c.size.toNat := by
  have hmax : c.maxSize = min c.size.toNat pathMax := rfl
  have hterminated : (path ++ ['\x00']).length = path.length + 1 := by
    rw [List.length_append]
    rfl
  rw [writeBack] at hexit
  by_cases hfits : path.length + 1 < c.maxSize
  · rw [if_pos hfits, List.take_of_length_le (by omega), Nat.add_sub_cancel] at hexit
    rw [exact_terminated_iff (by omega) hroom hexit, and_iff_right (by omega)]
  · rw [if_neg hfits] at hexit
    by_cases hfull : path.length + 1 = c.maxSize
    · rw [← hfull, List.take_of_length_le (by omega), writeData_of_room (by omega)] at hexit
      rw [exact_iff_of_exit hexit (by omega) (by omega) fun i => c.kernel_beyond]
      constructor
      · rintro ⟨hsize, hbegin⟩
        rw [List.take_of_length_le (by omega)] at hbegin
        refine absurd ?_ htarget.nul
        apply List.mem_of_mem_take
        rw [← hbegin]
        exact List.mem_append_right path (List.mem_singleton_self _)
      · exact fun h => absurd hfull h.1
    · rw [List.take_append_of_le_length (by omega)] at hexit
      rw [exact_cut_iff htarget hroom (by omega) hexit, and_iff_right hfull]

/-! ### Calls -/

/-- The condition on a name that the kernel reported. -/
def SoundName (c : Readlink) (target host referer : CStr) (procFd : Option (ℤ × ℤ)) : Prop :=
  if host.length < c.size.toNat then
    match c.guestName referer procFd host with
    | .ok (some (_, path)) => path.length + 1 ≠ c.maxSize
    | _ => True
  else
    match c.fullName referer with
    | some (_, full) =>
      c.substituted procFd host = none ∨ full.take c.size.toNat = target.take c.size.toNat
    | none =>
      match c.guestName referer procFd (host.take c.size.toNat) with
      | .error _ => False
      | .ok none => host.take c.size.toNat = target.take c.size.toNat
      | .ok (some (_, path)) =>
        path.length + 1 ≠ c.maxSize ∧ path.take c.size.toNat = target.take c.size.toNat

/-- The condition on a call.  What is written back does not fill the buffer together with its
terminator.  A link that the kernel has cut off is read again, and is not one that link2symlink
gives another name of which the buffer would hold a part; where it is not read again, the guest
name of the part begins as the target does. -/
def Sound (c : Readlink) (target : CStr) : Prop :=
  ∀ host referer procFd, c.link = .ok host → c.referer = .ok (referer, procFd) →
    if c.isExeLink referer then c.tracee.exe.length + 1 ≠ c.maxSize
    else if c.isOwnLink (str "cwd") referer then True
    else c.SoundName target host referer procFd

/-- What the tracer reads again is what the kernel has read. -/
def RereadsLink (c : Readlink) : Prop :=
  ∀ host referer procFd again, c.link = .ok host → c.referer = .ok (referer, procFd) →
    c.reread referer = some again → again = host

theorem maxSize_ne_zero (h : c.size ≠ 0) : c.maxSize ≠ 0 := by
  have hne : c.size.toNat ≠ 0 := fun hzero => h (UInt64.toNat_inj.1 hzero)
  have hpath : 0 < pathMax := by decide
  rw [maxSize]
  omega

/-- A call that the kernel refuses is exact if it is repaired. -/
theorem exact_of_failed (htarget : IsTarget target) (hsize : c.size ≠ 0)
    (hroom : c.size.toNat ≤ c.room) {e : Errno} (hlink : c.link = .error e)
    (h : c.target = some target) : c.Exact target := by
  have hpos := maxSize_ne_zero hsize
  rw [Readlink.target.eq_def, hlink] at h
  dsimp only at h
  split at h
  swap
  · cases h
  rename_i henoent
  obtain ⟨⟨n, path⟩, hrepaired, rfl⟩ := Option.map_eq_some_iff.1 h
  apply exact_of_writeData htarget hroom
  have hlen : (if 0 < n then n - 1 else path.length) = path.length := by
    obtain rfl | rfl := repaired_status hrepaired
    · rfl
    · rw [if_pos (Nat.succ_pos _), Nat.add_sub_cancel]
  have hdata : (path.take (min path.length c.maxSize)).length ≤ c.room := by
    have hmax : c.maxSize = min c.size.toNat pathMax := rfl
    rw [List.length_take]
    omega
  rw [exit, hlink]
  dsimp only
  rw [exitFailed, if_neg (by rw [not_or]; exact ⟨not_not_intro henoent, hpos⟩), hrepaired]
  dsimp only
  rw [hlen, writeData_of_room hdata]

/-- A name that the kernel reported is exact under its condition. -/
theorem exact_name_iff {host : CStr} (hlink : c.link = .ok host)
    (hreferer : c.referer = .ok (referer, procFd)) (hexe : ¬ c.isExeLink referer)
    (hcwd : ¬ c.isOwnLink (str "cwd") referer) (h : c.target = some target)
    (htarget : IsTarget target) (hpos : c.maxSize ≠ 0) (hroom : c.size.toNat ≤ c.room)
    (hhost : host.length < pathMax) (hreread : c.RereadsLink) :
    c.Exact target ↔ c.SoundName target host referer procFd := by
  have hmax : c.maxSize = min c.size.toNat pathMax := rfl
  have hlength : (host.take c.size.toNat).length = min c.size.toNat host.length :=
    List.length_take
  have hexit : c.exit = c.exitSucceeded host := by rw [exit, hlink]
  rw [exitSucceeded, if_neg hpos, hreferer] at hexit
  dsimp only at hexit
  rw [if_neg hexe, if_neg hcwd] at hexit
  rw [Readlink.target.eq_def, hlink] at h
  dsimp only at h
  rw [hreferer] at h
  dsimp only at h
  rw [if_neg hexe, if_neg hcwd] at h
  rw [SoundName]
  by_cases hwhole : host.length < c.size.toNat
  · rw [if_pos hwhole]
    rw [if_neg (by omega), List.take_of_length_le (Nat.le_of_lt hwhole)] at hexit
    cases hname : c.guestName referer procFd host with
    | error e =>
      rw [hname] at h
      cases h
    | ok written =>
      rw [hname] at h hexit
      cases written with
      | none =>
        cases h
        exact iff_of_true ((exact_kernel_iff hlink hexit).2 rfl) trivial
      | some written =>
        obtain ⟨status, path⟩ := written
        obtain rfl := guestName_status hname
        cases h
        rw [exact_writeBack_iff htarget hroom hexit, and_iff_left rfl]
  · rw [if_neg hwhole]
    rw [if_pos (by omega)] at hexit
    cases hfull : c.fullName referer with
    | some found =>
      obtain ⟨n, full⟩ := found
      obtain ⟨rfl, again, hagain, hname⟩ := fullName_eq_some hfull
      obtain rfl := hreread host referer procFd again hlink hreferer hagain
      rw [hfull] at hexit
      rw [exact_writeFull_iff htarget hroom hexit]
      constructor
      · exact Or.inr
      · rintro (hsame | hbegin)
        · rw [guestName, hsame, Option.getD_none, hname] at h
          cases h
          rfl
        · exact hbegin
    | none =>
      rw [hfull] at hexit
      dsimp only at hexit
      cases hname : c.guestName referer procFd (host.take c.size.toNat) with
      | error e =>
        rw [hname] at hexit
        refine iff_of_false (fun hexact => ?_) not_false
        have hresult := hexact.length
        rw [hexit] at hresult
        cases hresult
      | ok written =>
        rw [hname] at hexit
        cases written with
        | none => exact exact_kernel_iff hlink hexit
        | some written =>
          obtain ⟨status, path⟩ := written
          obtain rfl := guestName_status hname
          exact exact_writeBack_iff htarget hroom hexit

/-- Which results of `readlink` are exact. -/
theorem exact_iff (c : Readlink) {target : CStr} (h : c.target = some target)
    (htarget : IsTarget target) (hsize : c.size ≠ 0) (hroom : c.size.toNat ≤ c.room)
    (hlinks : ∀ host, c.link = .ok host → host.length < pathMax) (hreread : c.RereadsLink) :
    c.Exact target ↔ c.Sound target := by
  cases hlink : c.link with
  | error e =>
    apply iff_of_true (exact_of_failed htarget hsize hroom hlink h)
    intro host referer procFd hok
    rw [hlink] at hok
    cases hok
  | ok host =>
    have hpos := maxSize_ne_zero hsize
    cases hreferer : c.referer with
    | error e =>
      rw [Readlink.target.eq_def, hlink] at h
      dsimp only at h
      rw [hreferer] at h
      cases h
    | ok named =>
      obtain ⟨referer, procFd⟩ := named
      have hsound : c.Sound target ↔
          if c.isExeLink referer then c.tracee.exe.length + 1 ≠ c.maxSize
          else if c.isOwnLink (str "cwd") referer then True
          else c.SoundName target host referer procFd := by
        constructor
        · exact fun hall => hall host referer procFd hlink hreferer
        · intro hone host' referer' procFd' hlink' hreferer'
          cases hlink.symm.trans hlink'
          cases hreferer.symm.trans hreferer'
          exact hone
      rw [hsound]
      have hlength := htarget.length
      have hexit : c.exit = c.exitSucceeded host := by rw [exit, hlink]
      rw [exitSucceeded, if_neg hpos, hreferer] at hexit
      dsimp only at hexit
      have hsees := h
      rw [Readlink.target.eq_def, hlink] at hsees
      dsimp only at hsees
      rw [hreferer] at hsees
      dsimp only at hsees
      by_cases hexe : c.isExeLink referer
      · rw [if_pos hexe] at hsees hexit ⊢
        cases hsees
        rw [if_neg (by omega)] at hexit
        rw [exact_writeBack_iff htarget hroom hexit, and_iff_left rfl]
      by_cases hcwd : c.isOwnLink (str "cwd") referer
      · rw [if_neg hexe, if_pos hcwd] at hsees hexit ⊢
        cases hsees
        rw [if_neg (by omega)] at hexit
        exact iff_of_true (exact_of_writeData htarget hroom hexit) trivial
      · rw [if_neg hexe, if_neg hcwd]
        exact exact_name_iff hlink hreferer hexe hcwd h htarget hpos hroom (hlinks host hlink)
          hreread

/-- A process reads the link to its own program. -/
def exeCall (size : UInt64) : Readlink where
  tracee := ⟨7, str "/bin/sh", ⟨⟨[], [], [], 0⟩, ['/'], none⟩, 0, 0⟩
  getTracee _ := none
  hasDirfd := false
  dirfd := 0
  size := size
  before _ := ' '
  room := size.toNat
  link := .ok (str "/r/loader")
  originalPath := .ok (str "/proc/self/exe")
  modifiedPath := .ok (str "/proc/self/exe")
  recallProcFdPath _ := none
  readlinkProcPidFd _ _ := .error .ebadf
  readlink _ := .error .enoent
  recallFd _ _ := none
  resolveFakedHardLink _ := none

theorem isTarget_exe : IsTarget (str "/bin/sh") := ⟨by decide, by decide⟩

theorem rereadsLink_exe (size : UInt64) : (exeCall size).RereadsLink := by
  intro host referer procFd again hlink hreferer hagain
  cases hreferer
  cases hagain

theorem length_link_exe (size : UInt64) :
    ∀ host, (exeCall size).link = .ok host → host.length < pathMax := by
  intro host hlink
  cases hlink
  decide

theorem exact_iff_exe : (exeCall 100).Exact (str "/bin/sh") ↔
    (exeCall 100).Sound (str "/bin/sh") := by
  apply exact_iff
  · decide
  · exact isTarget_exe
  · decide
  · exact Nat.le_refl _
  · exact length_link_exe 100
  · exact rereadsLink_exe 100

/-- The buffer has room for the name and a terminator, and the terminator is reported. -/
theorem terminator_counted :
    ¬ ∀ (c : Readlink) (target : CStr), c.target = some target → IsTarget target → c.size ≠ 0 →
      c.size.toNat ≤ c.room → (∀ host, c.link = .ok host → host.length < pathMax) →
      c.RereadsLink → c.Exact target := by
  intro h
  have hexact := h (exeCall 8) (str "/bin/sh") (by decide) isTarget_exe (by decide)
    (Nat.le_refl _) (length_link_exe 8) (rereadsLink_exe 8)
  have hlength : (exeCall 8).exit.1 = .ok 8 := by decide
  have hresult := hlength.symm.trans hexact.length
  revert hresult
  decide

end Readlink

end NeoProot
