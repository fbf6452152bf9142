import NeoProot.Execve.LoadScript
import NeoProot.Execve.AoxpEdits

/-!
# The loader reads the script

The block that the tracer writes holds the statements and the paths that they name, below the
old stack pointer.  Whether the new stack pointer is aligned depends on the lengths of the paths.

## Main definitions

* `Laid` — the block is what it should be.
* `readScript_of_words` — statements that stand in memory are read.
* `layout_iff` — when the block is right and the stack pointer aligned.
-/

namespace NeoProot.LoadScript
open Mem PagedMemory

variable {m m' : TraceeMemory} {a : ℕ} {t : Tracee} {info : LoadInfo}

/-! ### Reading statements -/

/-- Words stand at an address. -/
def WordsAt (m : TraceeMemory) (a : ℕ) (words : List UInt64) : Prop :=
  ∀ (i : ℕ) w, words[i]? = some w → word m (a + i * wordSize) = w

theorem WordsAt.drop {words more : List UInt64} (h : WordsAt m a (words ++ more)) :
    WordsAt m (a + words.length * wordSize) more := by
  intro i w hw
  have hsum : a + words.length * wordSize + i * wordSize =
      a + (words.length + i) * wordSize := by
    rw [Nat.add_mul, Nat.add_assoc]
  rw [hsum]
  apply h
  rw [List.getElem?_append_right (Nat.le_add_right ..), Nat.add_sub_cancel_left, hw]

/-- **A statement that stands in memory is read.** -/
theorem readStatement_of_words {s : Statement} {more : List UInt64}
    (h : WordsAt m a (s.words ++ more)) :
    readStatement m a = some (s, a + s.words.length * wordSize) := by
  cases s with
  | openNext | openFile | makeStackExec =>
    rw [readStatement]
    dsimp only
    rw [h 0 _ rfl, h 1 _ rfl]
    rfl
  | mmapFile | mmapAnon =>
    rw [readStatement]
    dsimp only
    rw [h 0 _ rfl, h 1 _ rfl, h 2 _ rfl, h 3 _ rfl, h 4 _ rfl, h 5 _ rfl]
    rfl
  | startTraced | start =>
    rw [readStatement]
    dsimp only
    rw [h 0 _ rfl, h 1 _ rfl, h 2 _ rfl, h 3 _ rfl, h 4 _ rfl, h 5 _ rfl, h 6 _ rfl, h 7 _ rfl]
    rfl

/-- **A script that stands in memory is read up to its start.** -/
theorem readScript_of_words {script : List Statement} {last : Statement} {more : List UInt64}
    (hscript : ∀ s ∈ script, s.isStart = false) (hlast : last.isStart = true)
    (h : WordsAt m a ((script ++ [last]).flatMap Statement.words ++ more)) :
    readScript m (script ++ [last]).length a = some (script ++ [last]) := by
  induction script generalizing a with
  | nil =>
    rw [List.nil_append, List.flatMap_singleton] at h
    rw [List.nil_append, List.length_singleton, readScript, readStatement_of_words h]
    exact if_pos hlast
  | cons s script ih =>
    rw [List.cons_append, List.flatMap_cons, List.append_assoc] at h
    rw [List.cons_append, List.length_cons, readScript, readStatement_of_words h]
    dsimp only
    rw [hscript s List.mem_cons_self, if_neg Bool.false_ne_true,
      ih (fun s' hs' => hscript s' (List.mem_cons_of_mem s hs')) h.drop, Option.map_some]

/-! ### The bytes of a script -/

theorem length_scriptBytes (script : List Statement) :
    (scriptBytes script).length = wordSize * (script.flatMap Statement.words).length := by
  have hwords : (script.flatMap Statement.words).map
      (fun w => LittleEndian.encode wordSize w.toNat) =
        ((script.flatMap Statement.words).map UInt64.toNat).map
          (LittleEndian.encode wordSize) := by
    rw [List.map_map]
    rfl
  rw [scriptBytes, hwords, LittleEndian.length_flatten_encode, List.length_map]

theorem wordsAt_put {script : List Statement} {rest : List UInt8} :
    WordsAt (m.put a (scriptBytes script ++ rest)) a (script.flatMap Statement.words) := by
  intro i w hw
  have hbytes : scriptBytes script =
      (((script.flatMap Statement.words).map UInt64.toNat).map
        (LittleEndian.encode wordSize)).flatten := by
    rw [scriptBytes, List.map_map]
    rfl
  have hnat : ((script.flatMap Statement.words).map UInt64.toNat)[i]? = some w.toNat := by
    rw [List.getElem?_map, hw, Option.map_some]
  have hlt : w.toNat < 256 ^ wordSize := w.toNat_lt
  rw [word, hbytes, Aoxp.wordAt_put hnat, Nat.mod_eq_of_lt hlt, UInt64.ofNat_toNat]

theorem length_transcriptMappings (mappings : List Mapping) :
    ((transcriptMappings mappings).flatMap Statement.words).length = 6 * mappings.length := by
  induction mappings with
  | nil => rfl
  | cons first mappings ih =>
    rw [transcriptMappings] at ih ⊢
    rw [List.map_cons, List.flatMap_cons, List.length_append, ih, List.length_cons]
    split_ifs <;> rw [Statement.words] <;> simp only [List.length_cons, List.length_nil] <;> omega

theorem isStart_transcriptMappings {mappings : List Mapping} {s : Statement}
    (hs : s ∈ transcriptMappings mappings) : s.isStart = false := by
  rw [transcriptMappings, List.mem_map] at hs
  obtain ⟨mapping, -, rfl⟩ := hs
  split_ifs <;> rfl

/-- The script in front of its start. -/
theorem statements_eq (t : Tracee) (info : LoadInfo) (phdr addr1 addr2 addr3 : UInt64) :
    ∃ front last, statements t info phdr addr1 addr2 addr3 = front ++ [last] ∧
      (∀ s ∈ front, s.isStart = false) ∧ last.isStart = true := by
  refine ⟨_, _, rfl, fun s hs => ?_, rfl⟩
  rw [List.mem_append, List.mem_append, List.mem_cons] at hs
  obtain ((rfl | hs) | hs) | hs := hs
  · rfl
  · exact isStart_transcriptMappings hs
  · cases hinterp : info.interp with
    | none =>
      rw [hinterp] at hs
      cases hs
    | some interp =>
      rw [hinterp] at hs
      cases hs with
      | head => rfl
      | tail _ hs => exact isStart_transcriptMappings hs
  · split_ifs at hs
    · rw [List.mem_singleton.1 hs]
      rfl
    · cases hs

/-- **The sizes of the statements are the size that was computed.** -/
theorem length_statements (t : Tracee) (info : LoadInfo) (phdr addr1 addr2 addr3 : UInt64) :
    (scriptBytes (statements t info phdr addr1 addr2 addr3)).length = scriptSize info := by
  rw [length_scriptBytes, statements, scriptSize, openSize, mmapSize, makeStackExecSize, startSize,
    wordSize]
  have hexec : ∀ (b : Prop) [Decidable b] (stackStart : UInt64),
      ((if b then [Statement.makeStackExec stackStart] else []).flatMap Statement.words).length =
        if b then 2 else 0 := fun b _ stackStart => by
    split_ifs <;> rfl
  cases info.interp with
  | none =>
    simp only [List.flatMap_append, List.flatMap_cons, List.flatMap_nil, List.length_append, hexec,
      length_transcriptMappings, Statement.words, List.length_cons, List.length_nil]
    split_ifs <;> omega
  | some interp =>
    simp only [List.flatMap_append, List.flatMap_cons, List.flatMap_nil, List.length_append, hexec,
      length_transcriptMappings, Statement.words, List.length_cons, List.length_nil]
    split_ifs <;> omega

/-! ### The block -/

/-- A string stands at an address. -/
def PointsAt (m : TraceeMemory) (a : UInt64) (s : CString) : Prop :=
  m.values a.toNat s.size = s.terminated

/-- The sizes of the paths together. -/
def pathsSize (info : LoadInfo) (userPath : CString) : ℕ :=
  userPath.size + (info.interp.map fun interp => interp.1.size).getD 0 +
    (info.rawPath.map CString.size).getD 0

/-- The block is what it should be: the loader reads the statements, their addresses are those
of the paths, and no byte is written at or above the old stack pointer. -/
structure Laid (t : Tracee) (info : LoadInfo) (userPath : CString) (first : Mapping)
    (m : TraceeMemory) (newSp addr1 addr2 addr3 : UInt64) : Prop where
  script : readScript m
      (statements t info (info.elfHeader.phoff + first.addr) addr1 addr2 addr3).length
        newSp.toNat =
    some (statements t info (info.elfHeader.phoff + first.addr) addr1 addr2 addr3)
  user : PointsAt m addr1 userPath
  interp : ∀ interp, info.interp = some interp → PointsAt m addr2 interp.1
  raw : PointsAt m addr3 (info.rawPath.getD userPath)
  below : ∀ a, m.value a ≠ t.memory.value a → newSp.toNat ≤ a ∧ a < t.sp.toNat

/-- What the transfer should come to: the block is right and the stack pointer aligned. -/
def Right (t : Tracee) (info : LoadInfo) : Transfer → Prop
  | .done m newSp =>
    (∃ userPath first addr1 addr2 addr3, info.userPath = some userPath ∧
      info.mappings.head? = some first ∧
        Laid t info userPath first m newSp addr1 addr2 addr3) ∧ newSp.toNat % 16 = 0
  | .crash => False
  | .einval | .fault => True

theorem writeData_mapped {access : Access} {src : List UInt8}
    (hok : (writeData access m a src).2 = true) : m.Mapped a src.length := by
  by_contra hmapped
  have hexact : WriteExact access m a src :=
    (writeExact_iff src).2 fun h => absurd h hmapped
  exact hmapped (hexact.succeeds.1 hok)

/-- A block that ends where the stack pointer was ends below the end of memory. -/
theorem block_below {size : ℕ} (hsp : t.sp ≠ 0)
    (hmapped : t.memory.Mapped (t.sp - .ofNat size).toNat size) :
    (t.sp - .ofNat size).toNat + size = t.sp.toNat := by
  have hpos : 0 < t.sp.toNat := by
    rw [Nat.pos_iff_ne_zero]
    exact fun h => hsp (UInt64.toNat_inj.1 (h.trans UInt64.toNat_zero.symm))
  have hlt := t.sp.toNat_lt
  have hsub : (t.sp - .ofNat size).toNat = (2 ^ 64 - size % 2 ^ 64 + t.sp.toNat) % 2 ^ 64 := by
    rw [UInt64.toNat_sub, UInt64.toNat_ofNat']
  generalize (t.sp - .ofNat size).toNat = base at hmapped hsub ⊢
  by_cases hzero : size = 0
  · subst hzero
    omega
  -- The last byte of the block has an address.
  have hlast : base + (size - 1) < 2 ^ 64 := by
    apply t.mapped_lt
    intro i hi
    have hzero : i = 0 := Nat.lt_one_iff.1 hi
    rw [hzero, Nat.add_zero]
    exact hmapped (size - 1) (by omega)
  omega

theorem toNat_sub_ofNat {x : UInt64} {n : ℕ} (h : n ≤ x.toNat) :
    (x - .ofNat n).toNat = x.toNat - n := by
  have hlt := x.toNat_lt
  rw [UInt64.toNat_sub, UInt64.toNat_ofNat', Nat.mod_eq_of_lt (by omega : n < 2 ^ 64)]
  omega

theorem toNat_add_ofNat {x : UInt64} {n : ℕ} (h : x.toNat + n < 2 ^ 64) :
    (x + .ofNat n).toNat = x.toNat + n := by
  rw [UInt64.toNat_add, UInt64.toNat_ofNat', Nat.mod_eq_of_lt (by omega : n < 2 ^ 64),
    Nat.mod_eq_of_lt h]

theorem CString.length_terminated (s : CString) : s.terminated.length = s.size := by
  rw [CString.terminated, CString.size, List.length_append, List.length_singleton]

/-- A string that was put is there. -/
theorem pointsAt_put {front back : List UInt8} {s : CString} {addr : UInt64}
    (haddr : addr.toNat = a + front.length) :
    PointsAt (m.put a (front ++ (s.terminated ++ back))) addr s := by
  have hlength := s.length_terminated
  rw [PointsAt, haddr, values_put_inside (by
      rw [List.length_append, List.length_append]
      omega), List.drop_left, ← hlength, List.take_left]

/-- The sizes of statements are multiples of 16. -/
theorem scriptSize_mod (info : LoadInfo) : scriptSize info % 16 = 0 := by
  rw [scriptSize, openSize, mmapSize, makeStackExecSize, startSize, wordSize]
  cases info.interp with
  | none => dsimp only; split_ifs <;> omega
  | some interp => dsimp only; split_ifs <;> omega

/-- The bytes of the interpreter's path. -/
def interpBytes (info : LoadInfo) : List UInt8 :=
  (info.interp.map fun interp => interp.1.terminated).getD []

/-- The bytes of the raw path. -/
def rawBytes (info : LoadInfo) : List UInt8 := (info.rawPath.map CString.terminated).getD []

theorem length_interpBytes (info : LoadInfo) :
    (interpBytes info).length = (info.interp.map fun interp => interp.1.size).getD 0 := by
  rw [interpBytes]
  cases info.interp with
  | none => rfl
  | some interp => exact interp.1.length_terminated

theorem length_rawBytes (info : LoadInfo) :
    (rawBytes info).length = (info.rawPath.map CString.size).getD 0 := by
  rw [rawBytes]
  cases info.rawPath with
  | none => rfl
  | some raw => exact raw.length_terminated

theorem length_blockBytes (t : Tracee) (info : LoadInfo) (phdr addr1 addr2 addr3 : UInt64)
    (userPath : CString) :
    (scriptBytes (statements t info phdr addr1 addr2 addr3) ++ userPath.terminated ++
      interpBytes info ++ rawBytes info).length = scriptSize info + pathsSize info userPath := by
  rw [List.length_append, List.length_append, List.length_append, length_statements,
    userPath.length_terminated, length_interpBytes, length_rawBytes, pathsSize, Nat.add_assoc,
    Nat.add_assoc, Nat.add_assoc]

/-- What the block holds, with the addresses where they should be. -/
theorem laid_put {userPath : CString} {first : Mapping} {newSp addr1 addr2 addr3 : UInt64}
    {zeros : List UInt8}
    (hsum : newSp.toNat + (scriptSize info + (pathsSize info userPath + zeros.length)) =
      t.sp.toNat) (haddr1 : addr1.toNat = newSp.toNat + scriptSize info)
    (haddr2 : addr2.toNat = addr1.toNat + userPath.size)
    (hnone : info.rawPath = none → addr3 = addr1)
    (haddr3 : info.rawPath ≠ none →
      addr3.toNat = addr2.toNat + (info.interp.map fun interp => interp.1.size).getD 0) :
    Laid t info userPath first (t.memory.put newSp.toNat
      (scriptBytes (statements t info (info.elfHeader.phoff + first.addr) addr1 addr2 addr3) ++
        userPath.terminated ++ interpBytes info ++ rawBytes info ++ zeros))
          newSp addr1 addr2 addr3 := by
  have hlength := length_statements t info (info.elfHeader.phoff + first.addr) addr1 addr2 addr3
  obtain ⟨front, last, hstatements, hfront, hlast⟩ :=
    statements_eq t info (info.elfHeader.phoff + first.addr) addr1 addr2 addr3
  have hpaths := pathsSize.eq_def info userPath
  rw [← length_interpBytes, ← length_rawBytes] at hpaths
  have huser := userPath.length_terminated
  refine ⟨?_, ?_, ?_, ?_, ?_⟩
  · rw [hstatements] at hlength ⊢
    have hwords := @wordsAt_put t.memory newSp.toNat (front ++ [last])
      (userPath.terminated ++ (interpBytes info ++ (rawBytes info ++ zeros)))
    rw [← List.append_nil ((front ++ [last]).flatMap Statement.words)] at hwords
    rw [List.append_assoc, List.append_assoc, List.append_assoc]
    exact readScript_of_words hfront hlast hwords
  · rw [List.append_assoc, List.append_assoc, List.append_assoc]
    exact pointsAt_put (by rw [haddr1, hlength])
  · intro interp hinterp
    have hbytes : interpBytes info = interp.1.terminated := by
      rw [interpBytes, hinterp]
      rfl
    rw [hbytes, List.append_assoc, List.append_assoc]
    refine pointsAt_put ?_
    rw [haddr2, haddr1, List.length_append, hlength, huser]
    omega
  · cases hraw : info.rawPath with
    | none =>
      have hplace : addr3.toNat = newSp.toNat + scriptSize info := by
        rw [hnone hraw, haddr1]
      rw [List.append_assoc, List.append_assoc, List.append_assoc]
      exact pointsAt_put (by rw [hplace, hlength])
    | some raw =>
      have hbytes : rawBytes info = raw.terminated := by
        rw [rawBytes, hraw]
        rfl
      have hplace := haddr3 (by rw [hraw]; exact Option.some_ne_none raw)
      rw [hbytes, List.append_assoc]
      refine pointsAt_put ?_
      rw [hplace, haddr2, haddr1, List.length_append, List.length_append, hlength, huser,
        length_interpBytes]
      omega
  · intro a hvalue
    by_contra hout
    refine hvalue (value_put_outside ?_)
    simp only [List.length_append, hlength, huser]
    omega

/-- **A script that was transferred is right.** -/
theorem transfer_spec {newSp : UInt64} (hdone : transferLoadScript t info = .done m newSp) :
    ∃ userPath first addr1 addr2 addr3, info.userPath = some userPath ∧
      info.mappings.head? = some first ∧ Laid t info userPath first m newSp addr1 addr2 addr3 ∧
        newSp.toNat + (scriptSize info + (pathsSize info userPath +
          (16 - (t.sp.toNat - pathsSize info userPath) % 16) % 16)) = t.sp.toNat := by
  rw [transferLoadScript] at hdone
  cases huser : info.userPath with
  | none =>
    rw [huser] at hdone
    cases hdone
  | some userPath =>
    rw [huser] at hdone
    dsimp only at hdone
    by_cases hsp : t.sp = 0
    · rw [if_pos hsp] at hdone
      cases hdone
    rw [if_neg hsp] at hdone
    cases hmappings : info.mappings with
    | nil =>
      rw [hmappings] at hdone
      cases hdone
    | cons first rest =>
      rw [hmappings] at hdone
      dsimp only at hdone
      split at hdone
      · cases hdone
      rename_i memory hwrite
      rw [Transfer.done.injEq] at hdone
      obtain ⟨rfl, rfl⟩ := hdone
      have hput := writeData_success (congrArg Prod.snd hwrite)
      have hmapped := writeData_mapped (congrArg Prod.snd hwrite)
      rw [hwrite] at hput
      dsimp only at hput
      have hpaths : userPath.size + (info.interp.map fun interp => interp.1.size).getD 0 +
          (info.rawPath.map CString.size).getD 0 = pathsSize info userPath := rfl
      rw [hpaths] at hput hmapped ⊢
      generalize hpad : (16 - (t.sp - .ofNat userPath.size -
        .ofNat ((info.interp.map fun interp => interp.1.size).getD 0) -
          .ofNat ((info.rawPath.map CString.size).getD 0)).toNat % 16) % 16 = pad
        at hput hmapped ⊢
      generalize haddr1 : t.sp - .ofNat (pathsSize info userPath + pad) = addr1
        at hput hmapped ⊢
      generalize haddr2 : addr1 + .ofNat userPath.size = addr2 at hput hmapped ⊢
      generalize haddr3 : (if (info.rawPath.map CString.size).getD 0 = 0 then addr1
        else addr2 + .ofNat ((info.interp.map fun interp => interp.1.size).getD 0)) = addr3
        at hput hmapped ⊢
      have hbytes := length_blockBytes t info (info.elfHeader.phoff + first.addr) addr1 addr2 addr3
        userPath
      rw [← interpBytes, ← rawBytes] at hput hmapped
      generalize hblock : scriptBytes (statements t info (info.elfHeader.phoff + first.addr) addr1
        addr2 addr3) ++ userPath.terminated ++ interpBytes info ++ rawBytes info = block
        at hput hmapped hbytes
      have hsize : scriptSize info + pathsSize info userPath +
          (scriptSize info + (pathsSize info userPath + pad) -
            (scriptSize info + pathsSize info userPath)) =
              scriptSize info + (pathsSize info userPath + pad) := by omega
      rw [fillBuffer, List.length_append, List.length_replicate, hbytes, hsize] at hmapped
      have hsum := block_below hsp hmapped
      generalize t.sp - .ofNat (scriptSize info + (pathsSize info userPath + pad)) = newSp
        at hput hsum ⊢
      have hlt := t.sp.toNat_lt
      have hplace1 : addr1.toNat = newSp.toNat + scriptSize info := by
        rw [← haddr1, toNat_sub_ofNat (by omega)]
        omega
      have hplace2 : addr2.toNat = addr1.toNat + userPath.size := by
        rw [← haddr2, toNat_add_ofNat (by omega)]
      have hnone : info.rawPath = none → addr3 = addr1 := fun hraw => by
        rw [← haddr3, hraw]
        exact if_pos rfl
      have hplace3 : info.rawPath ≠ none → addr3.toNat =
          addr2.toNat + (info.interp.map fun interp => interp.1.size).getD 0 := fun hraw => by
        obtain ⟨raw, hraw⟩ := Option.ne_none_iff_exists'.1 hraw
        have hsome : (info.rawPath.map CString.size).getD 0 ≠ 0 := by
          rw [hraw]
          exact Nat.succ_ne_zero _
        rw [← haddr3, if_neg hsome, toNat_add_ofNat (by omega)]
      have hpad' : pad = (16 - (t.sp.toNat - pathsSize info userPath) % 16) % 16 := by
        have hfirst := toNat_sub_ofNat (x := t.sp) (n := userPath.size) (by omega)
        have hsecond := toNat_sub_ofNat (x := t.sp - .ofNat userPath.size)
          (n := (info.interp.map fun interp => interp.1.size).getD 0) (by omega)
        have hthird := toNat_sub_ofNat (x := t.sp - .ofNat userPath.size -
          .ofNat ((info.interp.map fun interp => interp.1.size).getD 0))
            (n := (info.rawPath.map CString.size).getD 0) (by omega)
        rw [← hpad, hthird, hsecond, hfirst, Nat.sub_sub, Nat.sub_sub, ← hpaths, Nat.add_assoc]
      refine ⟨userPath, first, addr1, addr2, addr3, rfl, rfl, ?_, ?_⟩
      · rw [hput, fillBuffer, ← hblock]
        refine laid_put ?_ hplace1 hplace2 hnone hplace3
        rw [List.length_replicate, hblock, hbytes]
        omega
      · rw [← hpad']
        exact hsum

/-- The tracer crashes where nothing is mapped only. -/
theorem mappings_of_crash (hcrash : transferLoadScript t info = .crash) : info.mappings = [] := by
  rw [transferLoadScript] at hcrash
  cases huser : info.userPath with
  | none =>
    rw [huser] at hcrash
    cases hcrash
  | some userPath =>
    rw [huser] at hcrash
    dsimp only at hcrash
    by_cases hsp : t.sp = 0
    · rw [if_pos hsp] at hcrash
      cases hcrash
    rw [if_neg hsp] at hcrash
    cases hmappings : info.mappings with
    | nil => rfl
    | cons first rest =>
      rw [hmappings] at hcrash
      dsimp only at hcrash
      split at hcrash <;> cases hcrash

/-- **The layout of the load script.**  Below an aligned stack pointer the script that is
transferred is right and the new stack pointer aligned, if and only if something is mapped and
the sizes of the paths add up to a multiple of 8. -/
theorem layout_iff {userPath : CString} (halign : t.sp.toNat % 16 = 0)
    (huser : info.userPath = some userPath)
    (hdone : transferLoadScript t info ≠ .einval ∧ transferLoadScript t info ≠ .fault) :
    Right t info (transferLoadScript t info) ↔
      info.mappings ≠ [] ∧ pathsSize info userPath % 8 = 0 := by
  cases htransfer : transferLoadScript t info with
  | einval => exact absurd htransfer hdone.1
  | fault => exact absurd htransfer hdone.2
  | crash => exact iff_of_false id fun h => h.1 (mappings_of_crash htransfer)
  | done m newSp =>
    obtain ⟨userPath', first, addr1, addr2, addr3, huser', hfirst, hlaid, hsum⟩ :=
      transfer_spec htransfer
    rw [huser, Option.some.injEq] at huser'
    subst huser'
    have hmappings : info.mappings ≠ [] := fun hnil => by
      rw [hnil] at hfirst
      cases hfirst
    have hscript := scriptSize_mod info
    rw [Right, and_iff_right hmappings,
      and_iff_right ⟨userPath, first, addr1, addr2, addr3, huser, hfirst, hlaid⟩]
    generalize pathsSize info userPath = size at hsum ⊢
    omega

/-- A program without interpreter that was executed by its own path, with one mapping. -/
def oneMapping (userPath : CString) : LoadInfo where
  mappings := [⟨0x400000, 0x1000, 0, 5, 2, 0⟩]
  elfHeader := ⟨0x400100, 64, 56, 1⟩
  needsExecutableStack := false
  userPath := some userPath
  rawPath := some userPath
  interp := none

/-- A tracee with one page of stack. -/
def smallStack : Tracee where
  access := ⟨true, true⟩
  memory := onePage
  mapped_lt := fun a h => by
    have hpage := h 0 Nat.one_pos
    rw [Nat.add_zero] at hpage
    have hzero : a / 4096 = 0 := of_decide_eq_true hpage
    omega
  sp := 2048
  pageSize := 4096

/-- The stack pointer after a transfer. -/
def Transfer.newSp? : Transfer → Option UInt64
  | .done _ newSp => some newSp
  | _ => none

theorem Transfer.of_newSp {r : Transfer} {newSp : UInt64} (h : r.newSp? = some newSp) :
    (∃ m, r = .done m newSp) ∧ r ≠ .einval ∧ r ≠ .fault := by
  cases r with
  | done m sp =>
    rw [newSp?, Option.some.injEq] at h
    exact ⟨⟨m, by rw [h]⟩, fun h => (by cases h), fun h => (by cases h)⟩
  | einval | crash | fault => cases h

/-- A path of seven bytes. -/
def sevenBytes : CString := ⟨[47, 98, 105, 110, 47, 115, 104], by decide⟩

/-- A path of two bytes. -/
def twoBytes : CString := ⟨[47, 97], by decide⟩

theorem layout_seven_bytes :
    Right smallStack (oneMapping sevenBytes)
      (transferLoadScript smallStack (oneMapping sevenBytes)) := by
  have hdone : (transferLoadScript smallStack (oneMapping sevenBytes)).newSp? = some 1904 := by
    decide +kernel
  have halign : smallStack.sp.toNat % 16 = 0 := by decide
  have hsize : pathsSize (oneMapping sevenBytes) sevenBytes % 8 = 0 := by decide
  have hiff := @layout_iff smallStack (oneMapping sevenBytes) sevenBytes halign rfl
    (Transfer.of_newSp hdone).2
  have hmapped : (oneMapping sevenBytes).mappings ≠ [] := List.cons_ne_nil _ _
  rw [hiff]
  exact ⟨hmapped, hsize⟩

/-- With a path of two bytes the stack pointer is 4 above a multiple of 16. -/
theorem two_bytes_misaligned : smallStack.sp.toNat % 16 = 0 ∧
    (transferLoadScript smallStack (oneMapping twoBytes)).newSp? = some 1908 ∧
      ¬ Right smallStack (oneMapping twoBytes)
        (transferLoadScript smallStack (oneMapping twoBytes)) := by
  have hdone : (transferLoadScript smallStack (oneMapping twoBytes)).newSp? = some 1908 := by
    decide +kernel
  refine ⟨by decide, hdone, ?_⟩
  obtain ⟨⟨m, htransfer⟩, -⟩ := Transfer.of_newSp hdone
  rw [htransfer]
  intro hright
  exact absurd hright.2 (by decide)

end NeoProot.LoadScript
