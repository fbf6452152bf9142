import NeoProot.Extension.FamilyNames

/-!
# The names that are internal

The extension tells its own files by their names: a prefix, and digits at the end.
What stands between is the name of a file of the guest, which may end in a dot.

## Main definitions

* `statxNlink`, `L2sHost.statNlink` — the number of links that a file is shown with.
* `Unambiguous` — the names of a family are told apart.
* `NameSafe` — a file is left alone whatever it is called.
* `MadeUp` — the names that a first link replaces.
* `InPlace` — what the calls of the extension keep of such a file.
* `grammar_iff` — which names are told apart, and which files are left alone.
-/

namespace NeoProot.Link2symlink
open LinkStore

variable {D : Type}
variable {final intermediate new old path : CStr} {n : ℕ}

/-! ### The number of links -/

/-- `link2symlink_handle_statx`: the number of links, if it is replaced.  The name is
looked for behind the last slash, and its length is taken with the slash. -/
def statxNlink (hostPath : CStr) : Option ℕ :=
  if '/' ∈ hostPath then
    let name := '/' :: getFilename hostPath
    if name.length < l2sPrefix.length + 6 then none
    else if ¬ l2sPrefix.isPrefixOf (name.drop 1) then none
    else if name[name.length - 5]? ≠ some '.' then none
    else if ¬ (lastFour name).all Char.isDigit then none
    else some (parse4digit (lastFour name))
  else none

namespace L2sHost

variable (h : L2sHost D) (s : HostStore D)

/-- The end of `handle_sysexit_end`: the count is in the name of the final file. -/
def finalNlink (final : CStr) : Except Errno (Option ℕ) :=
  match h.l2sLstat s final with
  | .error e => .error e
  | .ok _ => .ok (parseL2sFinalCount final)

def intermediateNlink (intermediate : CStr) : Except Errno (Option ℕ) :=
  match h.myReadlink s intermediate with
  | .error e => .error e
  | .ok final => h.finalNlink s final

/-- `handle_sysexit_end` after a `stat` of this path: the number of links, if it is
replaced. -/
def statNlink (original : CStr) : Except Errno (Option ℕ) :=
  match h.l2sLstat s original with
  | .error _ => .ok none
  | .ok node =>
    if isL2sInternalPath original then
      match node with
      | .link _ => h.intermediateNlink s original
      | _ => h.finalNlink s original
    else
      match node with
      | .link _ =>
        match h.myReadlink s original with
        | .error e => .error e
        | .ok intermediate =>
          if l2sPrefix.isPrefixOf (getFilename intermediate) then
            h.intermediateNlink s intermediate
          else .ok none
      | _ => .ok none

end L2sHost

/-- `statx` and `stat` read the same count from a name. -/
theorem statxNlink_eq (path : CStr) :
    statxNlink path = if '/' ∈ path then parseL2sFinalCount path else none := by
  rw [statxNlink]
  by_cases hslash : '/' ∈ path
  case neg => rw [if_neg hslash, if_neg hslash]
  rw [if_pos hslash, if_pos hslash, parseL2sFinalCount, isL2sFile]
  have hfive : l2sPrefix.length = 5 := rfl
  have hcons : ('/' :: getFilename path).length = (getFilename path).length + 1 := rfl
  by_cases hlen : l2sPrefix.length + 5 ≤ (getFilename path).length
  · have hlast : lastFour ('/' :: getFilename path) = lastFour (getFilename path) := by
      have hdrop : (getFilename path).length + 1 - 4 = (getFilename path).length - 4 + 1 := by omega
      rw [lastFour, lastFour, hcons, hdrop, List.drop_succ_cons]
    have hdot : ('/' :: getFilename path)[(getFilename path).length + 1 - 5]? =
        (getFilename path)[(getFilename path).length - 5]? := by
      have hindex : (getFilename path).length + 1 - 5 = (getFilename path).length - 5 + 1 := by
        omega
      rw [hindex, List.getElem?_cons_succ]
    simp only [hcons, hdot, hlast, List.drop_one, List.tail_cons, hlen, decide_true,
      Bool.and_true, if_neg (show ¬ (getFilename path).length + 1 < l2sPrefix.length + 6 by omega)]
    by_cases hbegin : l2sPrefix.isPrefixOf (getFilename path) = true
    case neg => simp [hbegin]
    by_cases hpoint : (getFilename path)[(getFilename path).length - 5]? = some '.'
    case neg =>
      have hbeq := beq_eq_false_iff_ne.2 hpoint
      simp only [hpoint, hbeq, not_false_eq_true, ne_eq, if_true, Bool.and_false, Bool.false_and,
        Bool.false_eq_true, if_false, ite_self]
    by_cases hdigits : (lastFour (getFilename path)).all Char.isDigit = true
    · simp only [hbegin, hpoint, hdigits, not_true_eq_false, if_false, ne_eq, beq_self_eq_true,
        Bool.and_self, if_true]
    · simp only [hbegin, hpoint, hdigits, not_true_eq_false, if_false, ne_eq, beq_self_eq_true,
        Bool.and_self, not_false_eq_true, if_true, Bool.and_false, Bool.false_eq_true]
  · have hshort : ('/' :: getFilename path).length < l2sPrefix.length + 6 := by
      rw [hcons]
      omega
    simp only [hshort, if_true, hlen, decide_false, Bool.and_false, Bool.false_and,
      Bool.false_eq_true, if_false]

/-! ### What the names must tell -/

/-- **The names of a family are told apart**: the intermediate, its final file, and the
count in the name of the final file. -/
structure Unambiguous (intermediate : CStr) : Prop where
  isInternal : isL2sInternalPath intermediate = true
  not_final : isL2sFile intermediate = false
  final : isL2sFile (firstFinal intermediate) = true
  count : ∀ n, 1 ≤ n → n ≤ maxLinkCount →
    parseL2sFinalCount (withLinkCount (firstFinal intermediate) n) = some n

/-- **A file of the guest is left alone whatever it is called**: its number of links is
its own, and it stays where it is while other names get links and lose them. -/
def NameSafe (path : CStr) : Prop :=
  ∀ (D : Type) (h : L2sHost D) (s : HostStore D) (c : D), s path = some (.file c) →
    (∀ p, isL2sFile p = true → s p ≠ some .directory) →
    h.statNlink s path = .ok none ∧ statxNlink path = none ∧
      (∀ q, (h.decrementLinkCount s (.ok q)).1 path = some (.file c)) ∧
      ∀ q dest, IsAbsolute q → q ≠ path →
        (h.moveAndSymlinkPath s (.ok q) dest).1 path = some (.file c)

/-- What the names of a first link begin with: for a file, the name with the prefix;
for a link of the guest, its text. -/
def IsFirstStem (stem : CStr) : Prop :=
  if l2sPrefix.isPrefixOf (getFilename stem) then IsAbsolute stem ∧ stem.length + 4 < pathMax - 1
  else stem.length < pathMax - 1

/-- The names that a first link replaces without a look: the final file, if its name is
another than that of the intermediate, and the last intermediate of all. -/
def MadeUp (path : CStr) : Prop :=
  ∃ stem, IsFirstStem stem ∧ (path = numbered stem (maxLinkSuffix - 1) ∨
    ∃ n, 1 ≤ n ∧ n < maxLinkSuffix ∧ path = firstFinal (numbered stem n) ∧
      path ≠ numbered stem n)

/-! ### The names of a family -/

theorem isL2sInternalPath_of_isL2sFile (hfile : isL2sFile path = true) :
    isL2sInternalPath path = true := by
  simp only [isL2sFile, Bool.and_eq_true] at hfile
  rw [isL2sInternalPath, isL2sInternalName, Bool.and_eq_true, Bool.and_eq_true]
  exact ⟨hfile.1.1, hfile.2⟩

theorem parseL2sFinalCount_eq_none (hfile : isL2sFile path = false) :
    parseL2sFinalCount path = none := by
  rw [parseL2sFinalCount, hfile, if_neg Bool.false_ne_true]

theorem parseL2sFinalCount_ne_none (hfile : isL2sFile path = true) :
    parseL2sFinalCount path ≠ none := by
  rw [parseL2sFinalCount, hfile, if_pos rfl]
  exact Option.some_ne_none _

theorem lastFour_append (a : CStr) {b : CStr} (hb : b.length = 4) : lastFour (a ++ b) = b := by
  rw [lastFour, List.length_append, hb, Nat.add_sub_cancel, List.drop_left]

/-- A final file has a base that begins as the files of the extension do. -/
theorem exists_of_isL2sFile (hfile : isL2sFile path = true) :
    ∃ base digits, path = base ++ '.' :: digits ∧ digits.length = 4 ∧
      l2sPrefix.isPrefixOf (getFilename base) = true := by
  simp only [isL2sFile, Bool.and_eq_true, decide_eq_true_eq, List.isPrefixOf_iff_prefix,
    beq_iff_eq] at hfile
  obtain ⟨⟨⟨hbegin, hlen⟩, hdot⟩, -⟩ := hfile
  have hfive : l2sPrefix.length = 5 := rfl
  have hname : getFilename path = (getFilename path).take ((getFilename path).length - 5) ++
      '.' :: (getFilename path).drop ((getFilename path).length - 4) := by
    have hindex : (getFilename path).length - 4 = (getFilename path).length - 5 + 1 := by omega
    obtain ⟨hlt, hget⟩ := List.getElem?_eq_some_iff.1 hdot
    rw [hindex, ← hget, List.getElem_cons_drop, List.take_append_drop]
  refine ⟨directoryPart path ++ (getFilename path).take ((getFilename path).length - 5),
    (getFilename path).drop ((getFilename path).length - 4), ?_, ?_, ?_⟩
  · rw [List.append_assoc, ← hname, directoryPart_append]
  · rw [List.length_drop]
    omega
  · have hslash : '/' ∉ (getFilename path).take ((getFilename path).length - 5) :=
      fun hmem => slash_notMem_getFilename path (List.mem_of_mem_take hmem)
    rw [getFilename_append hslash, getFilename_directoryPart, List.nil_append,
      List.isPrefixOf_iff_prefix, List.prefix_take_iff]
    exact ⟨hbegin, by omega⟩

/-- The name of a final file is one with any number of links. -/
theorem isL2sFile_withLinkCount (hfile : isL2sFile path = true) (n : ℕ) :
    isL2sFile (withLinkCount path n) = true := by
  obtain ⟨base, digits, rfl, hfour, hbegin⟩ := exists_of_isL2sFile hfile
  have hcount : withLinkCount (base ++ '.' :: digits) n = finalOf base (n % 10000) := by
    have hsplit : base ++ '.' :: digits = (base ++ ['.']) ++ digits := by simp
    have hfold : fourDigits (n % 10000) = fourDigits n := by
      have hones : n % 10000 % 10 = n % 10 := by omega
      have htens : n % 10000 / 10 % 10 = n / 10 % 10 := by omega
      have hhundreds : n % 10000 / 100 % 10 = n / 100 % 10 := by omega
      have hthousands : n % 10000 / 1000 % 10 = n / 1000 % 10 := by omega
      rw [fourDigits, fourDigits, hones, htens, hhundreds, hthousands]
    rw [withLinkCount, hsplit, List.length_append, hfour, Nat.add_sub_cancel, List.take_left,
      finalOf, hfold]
    simp
  have hparse := parse_finalOf (n := n % 10000) hbegin (by rw [maxLinkCount]; omega)
  rw [hcount]
  by_contra hno
  rw [parseL2sFinalCount_eq_none (Bool.eq_false_iff.2 hno)] at hparse
  cases hparse

theorem mem_lastFour (a : CStr) (c : Char) {rest : CStr} (hrest : rest.length ≤ 3) :
    c ∈ lastFour (a ++ c :: rest) := by
  have hle : (a ++ c :: rest).length - 4 ≤ a.length := by
    rw [List.length_append, List.length_cons]
    omega
  rw [lastFour, List.drop_append_of_le_length hle]
  exact List.mem_append_right _ List.mem_cons_self

section

variable {h : L2sHost D} {original stem : CStr}

theorem IsStem.firstFinal_eq_finalOf (hs : IsStem original stem)
    (hfits : (numbered stem n).length + 5 ≤ pathMax - 1) :
    firstFinal (numbered stem n) = finalOf (numbered stem n) 2 := by
  rw [hs.firstFinal_eq, List.take_of_length_le]
  · rfl
  · have hlen : (str ".0002").length = 5 := rfl
    omega

/-- A final name that was cut is not the name of a final file. -/
theorem IsStem.isL2sFile_firstFinal_iff (hs : IsStem original stem) (n : ℕ) :
    isL2sFile (firstFinal (numbered stem n)) = true ↔
      (numbered stem n).length + 5 ≤ pathMax - 1 := by
  have hshort := hs.length_numbered_lt n
  constructor
  · intro hfile
    by_contra hlong
    have hcut : (str ".0002").take (pathMax - 1 - (numbered stem n).length) =
        '.' :: (str "0002").take (pathMax - 1 - (numbered stem n).length - 1) := by
      have hpos : pathMax - 1 - (numbered stem n).length =
          pathMax - 1 - (numbered stem n).length - 1 + 1 := by omega
      rw [hpos]
      rfl
    have hrest : ((str "0002").take (pathMax - 1 - (numbered stem n).length - 1)).length ≤ 3 := by
      rw [List.length_take]
      omega
    have hdot := mem_lastFour (l2sPrefix ++ (getFilename original ++ fourDigits n)) '.' hrest
    simp only [isL2sFile, Bool.and_eq_true, hs.getFilename_firstFinal, hcut] at hfile
    rw [List.append_assoc] at hdot
    have hdigit := List.all_eq_true.1 hfile.2 _ hdot
    exact absurd hdigit (by decide)
  · intro hfits
    by_contra hno
    have hparse := parse_finalOf (n := 2) (hs.isPrefixOf_numbered n) (by decide)
    rw [← hs.firstFinal_eq_finalOf hfits,
      parseL2sFinalCount_eq_none (Bool.eq_false_iff.2 hno)] at hparse
    cases hparse

/-- **Which names are told apart**: the file has a name, it does not end in a dot, and
the final name is not cut. -/
theorem IsStem.unambiguous_iff (hs : IsStem original stem) (n : ℕ) :
    Unambiguous (numbered stem n) ↔ getFilename original ≠ [] ∧
      (getFilename original).getLast? ≠ some '.' ∧
      (numbered stem n).length + 5 ≤ pathMax - 1 := by
  have hname := hs.getFilename_numbered n
  have hfive : l2sPrefix.length = 5 := rfl
  have hlast : lastFour (getFilename (numbered stem n)) = fourDigits n := by
    rw [hname, lastFour_append _ (length_fourDigits n)]
  have hinternal : isL2sInternalPath (numbered stem n) = true ↔ getFilename original ≠ [] := by
    rw [isL2sInternalPath, isL2sInternalName, hs.isPrefixOf_numbered, hlast, fourDigits_all,
      Bool.true_and, Bool.and_true, decide_eq_true_eq, hname, List.length_append,
      List.length_append, length_fourDigits, ← List.length_pos_iff]
    omega
  have hfile (hne : getFilename original ≠ []) : isL2sFile (numbered stem n) = true ↔
      (getFilename original).getLast? = some '.' := by
    have hpos := List.length_pos_iff.2 hne
    have hindex : (l2sPrefix ++ getFilename original ++ fourDigits n).length - 5 =
        l2sPrefix.length + ((getFilename original).length - 1) := by
      simp only [List.length_append, length_fourDigits]
      omega
    have hdot : (getFilename (numbered stem n))[(getFilename (numbered stem n)).length - 5]? =
        (getFilename original).getLast? := by
      rw [hname, hindex, List.append_assoc, List.getElem?_append_right (by omega),
        Nat.add_sub_cancel_left, List.getElem?_append_left (by omega), List.getLast?_eq_getElem?]
    have hinside := hinternal.2 hne
    rw [isL2sInternalPath, isL2sInternalName, Bool.and_eq_true] at hinside
    simp only [isL2sFile]
    rw [hinside.1, hlast, fourDigits_all, Bool.true_and, Bool.and_true, beq_iff_eq, hdot]
  constructor
  · intro hu
    have hne := hinternal.1 hu.isInternal
    refine ⟨hne, fun hdot => ?_, (hs.isL2sFile_firstFinal_iff n).1 hu.final⟩
    have hfinal := (hfile hne).2 hdot
    rw [hu.not_final] at hfinal
    cases hfinal
  · rintro ⟨hne, hdot, hfits⟩
    refine ⟨hinternal.2 hne, ?_, (hs.isL2sFile_firstFinal_iff n).2 hfits, fun m _ hm => ?_⟩
    · rw [Bool.eq_false_iff]
      exact fun hfinal => hdot ((hfile hne).1 hfinal)
    · rw [hs.firstFinal_eq_finalOf hfits, withLinkCount_finalOf,
        parse_finalOf (hs.isPrefixOf_numbered n) hm]

end

/-! ### What keeps a file in its place -/

/-- The file is in its place, and no directory has the name of a final file. -/
structure InPlace (path : CStr) (c : D) (s : HostStore D) : Prop where
  file : s path = some (.file c)
  no_directory : ∀ p, isL2sFile p = true → s p ≠ some .directory

namespace InPlace

variable {h : L2sHost D} {s s' : HostStore D} {path p : CStr} {c : D}

theorem update (hs : InPlace path c s) (hp : p ≠ path) {node : Option (Node CStr D)}
    (hnode : node ≠ some .directory) : InPlace path c (Function.update s p node) where
  file := (Function.update_of_ne hp.symm ..).trans hs.file
  no_directory q hq := by
    by_cases hqp : q = p
    · rw [hqp, Function.update_self]
      exact hnode
    · rw [Function.update_of_ne hqp]
      exact hs.no_directory q hq

theorem ne_of_free (hs : InPlace path c s) (hfree : s p = none) : p ≠ path := by
  rintro rfl
  rw [hs.file] at hfree
  cases hfree

theorem rename (hs : InPlace path c s) (hold : old ≠ path) (hnew : new ≠ path)
    (hnode : s old ≠ some .directory) (hok : h.rename s old new = .ok s') : InPlace path c s' := by
  rw [L2sHost.rename.eq_def] at hok
  split at hok
  · cases hok
  · exact absurd ‹_› hnode
  · cases hok
  · rename_i node _ _ hthere _
    split at hok
    · cases hok
    · split_ifs at hok
      · cases hok
        exact hs
      · cases hok
        refine (hs.update hold (by simp)).update hnew ?_
        intro hdir
        rw [Option.some.injEq] at hdir
        rw [hdir] at hthere
        exact hnode hthere

theorem symlink {target : CStr} (hs : InPlace path c s) (hok : h.symlink s target p = .ok s') :
    InPlace path c s' := by
  rw [L2sHost.symlink.eq_def] at hok
  split at hok
  · cases hok
  · cases hok
  · cases hok
    exact hs.update (hs.ne_of_free ‹_›) (by simp)

theorem unlink (hs : InPlace path c s) (hp : p ≠ path) (hok : h.unlink s p = .ok s') :
    InPlace path c s' := by
  rw [L2sHost.unlink.eq_def] at hok
  split at hok
  · cases hok
  · cases hok
  · cases hok
  · cases hok
    exact hs.update hp (by simp)

theorem l2sRename (hs : InPlace path c s) (hold : old ≠ path) (hnew : new ≠ path)
    (hnode : s old ≠ some .directory) (hok : h.l2sRename s old new = .ok s') :
    InPlace path c s' := by
  rw [L2sHost.l2sRename] at hok
  cases hentry : h.l2sEntry old with
  | error e =>
    rw [hentry] at hok
    cases hok
  | ok u =>
    cases hentry' : h.l2sEntry new with
    | error e =>
      rw [hentry, hentry'] at hok
      cases hok
    | ok u' =>
      rw [hentry, hentry'] at hok
      exact hs.rename hold hnew hnode hok

theorem l2sSymlink {target : CStr} (hs : InPlace path c s)
    (hok : h.l2sSymlink s target p = .ok s') : InPlace path c s' := by
  rw [L2sHost.l2sSymlink] at hok
  cases hentry : h.l2sEntry p with
  | error e =>
    rw [hentry] at hok
    cases hok
  | ok u =>
    rw [hentry] at hok
    exact hs.symlink hok

theorem l2sUnlink (hs : InPlace path c s) (hp : p ≠ path) (hok : h.l2sUnlink s p = .ok s') :
    InPlace path c s' := by
  rw [L2sHost.l2sUnlink] at hok
  cases hentry : h.l2sEntry p with
  | error e =>
    rw [hentry] at hok
    cases hok
  | ok u =>
    rw [hentry] at hok
    exact hs.unlink hp hok

theorem recount {newFinal : CStr} (hs : InPlace path c s) (hi : intermediate ≠ path)
    (hf : final ≠ path) (hn : newFinal ≠ path) (hnode : s final ≠ some .directory) :
    InPlace path c (h.recount s intermediate final newFinal).1 := by
  rw [L2sHost.recount]
  cases hrename : h.l2sRename s final newFinal with
  | error e => exact hs
  | ok s₁ =>
    have h₁ := hs.l2sRename hf hn hnode hrename
    simp only []
    cases hunlink : h.l2sUnlink s₁ intermediate with
    | error e => exact h₁
    | ok s₂ =>
      have h₂ := h₁.l2sUnlink hi hunlink
      simp only []
      cases hsymlink : h.l2sSymlink s₂ newFinal intermediate with
      | error e => exact h₂
      | ok s₃ => exact h₂.l2sSymlink hsymlink

theorem removeFamily (hs : InPlace path c s) (hi : intermediate ≠ path) (hf : final ≠ path) :
    InPlace path c (h.removeFamily s intermediate final).1 := by
  rw [L2sHost.removeFamily]
  cases hunlink : h.l2sUnlink s intermediate with
  | error e => exact hs
  | ok s₁ =>
    have h₁ := hs.l2sUnlink hi hunlink
    simp only []
    cases hunlink' : h.l2sUnlink s₁ final with
    | error e => exact h₁
    | ok s₂ => exact h₁.l2sUnlink hf hunlink'

theorem ne_of_myReadlink (hs : InPlace path c s) {text : CStr}
    (hread : h.myReadlink s p = .ok text) : p ≠ path := by
  rintro rfl
  rw [L2sHost.myReadlink.eq_def, hs.file] at hread
  cases hentry : h.l2sEntry p <;> rw [hentry] at hread <;> cases hread

/-- A file that is not called a final file is not the final file of a family. -/
theorem ne_of_parse (hfile : isL2sFile path = false) (hparse : parseL2sFinalCount final = some n) :
    isL2sFile final = true ∧ final ≠ path ∧
      ∀ m, withLinkCount final m ≠ path := by
  have hfinal : isL2sFile final = true := by
    by_contra hno
    rw [parseL2sFinalCount_eq_none (Bool.eq_false_iff.2 hno)] at hparse
    cases hparse
  refine ⟨hfinal, ?_, fun m => ?_⟩
  · rintro rfl
    rw [hfinal] at hfile
    cases hfile
  · intro heq
    have hcount := isL2sFile_withLinkCount hfinal m
    rw [heq, hfile] at hcount
    cases hcount

theorem decrementLinkCount (hfile : isL2sFile path = false) (hs : InPlace path c s)
    (q : Except Errno CStr) : InPlace path c (h.decrementLinkCount s q).1 := by
  rw [L2sHost.decrementLinkCount.eq_def]
  split
  · exact hs
  · split
    · split
      · exact hs
      · split_ifs
        · split
          · exact hs
          · rename_i final hread
            split
            · exact hs
            · rename_i linkCount hparse
              obtain ⟨hfinal, hne, hnew⟩ := ne_of_parse hfile hparse
              split_ifs
              · exact hs.recount (hs.ne_of_myReadlink hread) hne (hnew _)
                  (hs.no_directory _ hfinal)
              · exact hs.removeFamily (hs.ne_of_myReadlink hread) hne
        · exact hs
    · exact hs

theorem destLink (hfile : isL2sFile path = false) (hs : InPlace path c s)
    (original intermediate : CStr) (dest : Except Errno CStr) :
    InPlace path c (h.destLink s original intermediate dest).1 := by
  rw [L2sHost.destLink.eq_def]
  split
  · exact hs.decrementLinkCount hfile _
  · split
    · exact hs.decrementLinkCount hfile _
    · exact hs.symlink ‹_›

theorem nextLink (hfile : isL2sFile path = false) (hs : InPlace path c s)
    (original intermediate : CStr) (dest : Except Errno CStr) :
    InPlace path c (h.nextLink s original intermediate dest).1 := by
  rw [L2sHost.nextLink.eq_def]
  split
  · exact hs
  · rename_i final hread
    split
    · exact hs
    · rename_i linkCount hparse
      obtain ⟨hfinal, hne, hnew⟩ := ne_of_parse hfile hparse
      have hrecount := hs.recount (h := h) (hs.ne_of_myReadlink hread) hne (hnew (linkCount + 1))
        (hs.no_directory _ hfinal)
      split_ifs
      · exact hs
      · split
        · rename_i heq
          rw [heq] at hrecount
          exact hrecount
        · rename_i heq
          rw [heq] at hrecount
          exact hrecount.destLink hfile ..

theorem originalLink (hfile : isL2sFile path = false) (hs : InPlace path c s)
    (original intermediate : CStr) (dest : Except Errno CStr) :
    InPlace path c (h.originalLink s original intermediate dest).1 := by
  rw [L2sHost.originalLink.eq_def]
  split
  · exact (hs.symlink ‹_›).destLink hfile ..
  · split_ifs
    · exact hs.destLink hfile ..
    · exact hs

theorem lastLink (hs : InPlace path c s) (intermediate : CStr) (dest : Except Errno CStr) :
    InPlace path c (match dest with
      | .error e => (s, LinkAnswer.failed e)
      | .ok dest =>
        match h.symlink s intermediate dest with
        | .error e => (s, LinkAnswer.failed e)
        | .ok s => (s, LinkAnswer.done)).1 := by
  split
  · exact hs
  · split
    · exact hs
    · exact hs.symlink ‹_›

theorem reuse (hs : InPlace path c s) (original intermediate : CStr) (dest : Except Errno CStr) :
    InPlace path c (h.reuse s original intermediate dest).1 := by
  rw [L2sHost.reuse.eq_def]
  apply lastLink
  split_ifs
  · exact hs
  · split
    · exact hs.symlink ‹_›
    · exact hs

theorem cleared (hs : InPlace path c s)
    (hi : intermediate = path → ∃ e, h.l2sEntry path = .error e) :
    InPlace path c (match h.l2sUnlink s intermediate with
      | .ok s => s
      | .error _ => s) := by
  split
  · rename_i hok
    refine hs.l2sUnlink (fun heq => ?_) hok
    obtain ⟨e, he⟩ := hi heq
    rw [heq, L2sHost.l2sUnlink, he] at hok
    cases hok
  · exact hs

/-- Only the last intermediate may be there already. -/
theorem makeFamily (hfile : isL2sFile path = false) (hs : InPlace path c s)
    (hi : intermediate = path → ∃ e, h.l2sEntry path = .error e) (original : CStr)
    (dest : Except Errno CStr) :
    InPlace path c (h.makeFamily s original intermediate final dest).1 := by
  rw [L2sHost.makeFamily.eq_def]
  split
  · exact (hs.l2sSymlink ‹_›).originalLink hfile ..
  · split_ifs
    · exact hs.reuse ..
    · have hgone := hs.cleared hi
      dsimp only
      split
      · exact (hgone.l2sSymlink ‹_›).originalLink hfile ..
      · exact hgone
    · exact hs

theorem firstLink (hfile : isL2sFile path = false) (hs : InPlace path c s) {original stem : CStr}
    (hmade : ∀ n, 1 ≤ n → n < maxLinkSuffix → path = firstFinal (numbered stem n) →
      path = numbered stem n)
    (hlast : path ≠ numbered stem (maxLinkSuffix - 1)) (horiginal : original ≠ path)
    (hnode : s original ≠ some .directory) (dest : Except Errno CStr) :
    InPlace path c (h.firstLink s original stem dest).1 := by
  have hspec := h.searchIntermediate_spec s stem (maxLinkSuffix - 2) 1
  obtain ⟨n, hpos, hle, hsearch, htaken⟩ := hspec
  have hsuffix : maxLinkSuffix = 1000 := rfl
  rw [L2sHost.firstLink.eq_def, L2sHost.newIntermediate, hsearch]
  have hi : numbered stem n = path → ∃ e, h.l2sEntry path = .error e := by
    intro heq
    cases hentry : h.l2sEntry path with
    | error e => exact ⟨e, rfl⟩
    | ok u =>
      have hthere : (h.l2sLstat s (numbered stem n)).isOk = true := by
        rw [heq, L2sHost.l2sLstat_some hentry hs.file]
        rfl
      have hend := (htaken hthere).1
      have hn : n = maxLinkSuffix - 1 := by omega
      rw [hn] at heq
      exact absurd heq.symm hlast
  dsimp only
  split
  · rename_i hrename
    by_cases hfinal : path = firstFinal (numbered stem n)
    · -- Such a name is the intermediate too, and cannot be reached.
      have hsame := hmade n hpos (by omega) hfinal
      obtain ⟨e, he⟩ := hi hsame.symm
      rw [← hfinal, L2sHost.l2sRename, he] at hrename
      cases hentry : h.l2sEntry original <;> rw [hentry] at hrename <;> cases hrename
    · exact (hs.l2sRename horiginal (Ne.symm hfinal) hnode hrename).makeFamily hfile hi ..
  · split_ifs
    · split
      · split
        · exact hs.symlink ‹_›
        · exact hs
      · exact hs
    · exact hs

theorem some_of_l2sLstat {node : Node CStr D} (hstat : h.l2sLstat s p = .ok node) :
    s p = some node := by
  rw [L2sHost.l2sLstat] at hstat
  cases hentry : h.l2sEntry p with
  | error e =>
    rw [hentry] at hstat
    cases hstat
  | ok u =>
    rw [hentry] at hstat
    change L2sHost.lstat s p = .ok node at hstat
    rw [L2sHost.lstat.eq_def] at hstat
    split at hstat
    · cases hstat
    · cases hstat
      assumption

theorem node_eq (hs : InPlace path c s) {node : Node CStr D}
    (hstat : h.l2sLstat s path = .ok node) : node = .file c := by
  have hthere := some_of_l2sLstat hstat
  rw [hs.file, Option.some.injEq] at hthere
  exact hthere.symm

theorem moveAndSymlinkPath (hfile : isL2sFile path = false) (hmade : ¬ MadeUp path)
    (hs : InPlace path c s) {q : CStr} (habs : IsAbsolute q) (hq : q ≠ path)
    (dest : Except Errno CStr) : InPlace path c (h.moveAndSymlinkPath s (.ok q) dest).1 := by
  have hfirst : ∀ stem, IsFirstStem stem → s q ≠ some .directory →
      InPlace path c (h.firstLink s q stem dest).1 := by
    intro stem hstem hnode
    refine hs.firstLink hfile (fun n hpos hn heq => ?_) (fun heq => ?_) hq hnode dest
    · by_contra hne
      exact hmade ⟨stem, hstem, .inr ⟨n, hpos, hn, heq, hne⟩⟩
    · exact hmade ⟨stem, hstem, .inl heq⟩
  rw [L2sHost.moveAndSymlinkPath.eq_def]
  split_ifs
  · exact hs
  · exact hs
  · dsimp only
    split
    · exact hs
    · exact hs
    · rename_i hlink
      split
      · exact hs
      · rename_i text hread
        split_ifs with hinternal hbegin
        · exact hs.nextLink hfile ..
        · exact hs
        · refine hfirst text ?_ (by simp [some_of_l2sLstat hlink])
          rw [IsFirstStem, if_neg hbegin]
          rw [L2sHost.myReadlink.eq_def, some_of_l2sLstat hlink] at hread
          split at hread
          · cases hread
          · cases hread
          · rename_i heq
            cases heq
            split_ifs at hread with hlong
            cases hread
            omega
          · cases hread
    · rename_i hnode
      split
      · exact hs
      · rename_i stem hstem
        have hisStem := L2sHost.isStem_of_stemOfFile habs hstem
        refine hfirst stem ?_ (by simp [some_of_l2sLstat hnode])
        rw [IsFirstStem, if_pos]
        · exact ⟨hisStem.absolute, hisStem.fits⟩
        · rw [hisStem.filename, List.isPrefixOf_iff_prefix]
          exact List.prefix_append _ _

end InPlace

/-! ### The names that are not left alone -/

/-- A host that makes no links, and has no backing directory. -/
def linklessHost : L2sHost Bool where
  l2sDir := none
  openDirectory := .ok ()
  refuses
    | .symlink _ _ => some .eacces
    | _ => none
  renameDirectory s _ _ := .ok s
  follow _ text := text
  l2sDir_absolute := noDirectory_absolute
  rename_ne_enoent := noRefusal_ne .enoent
  symlink_ne_eexist := by simp
  follow_l2s _ _ _ _ := rfl

section

variable {s : HostStore Bool} {path original intermediate final stem : CStr} {e : Errno}

theorem linkless_l2sEntry (path : CStr) : linklessHost.l2sEntry path = .ok () := rfl

theorem linkless_symlink (s : HostStore Bool) (path target : CStr) :
    linklessHost.l2sSymlink s target path =
      .error (if s path = none then .eacces else .eexist) := by
  rw [L2sHost.l2sSymlink_eq (linkless_l2sEntry path)]
  cases hpath : s path with
  | none => exact L2sHost.symlink_refused hpath rfl
  | some node => exact L2sHost.symlink_taken (by simp [hpath])

/-- Without links, at most the intermediate is removed. -/
theorem linkless_makeFamily (s : HostStore Bool) (original intermediate final : CStr) (e : Errno) :
    (linklessHost.makeFamily s original intermediate final (.error e)).1 = s ∨
    (linklessHost.makeFamily s original intermediate final (.error e)).1 =
      Function.update s intermediate none := by
  have hreuse : (linklessHost.reuse s original intermediate (.error e)).1 = s := by
    simp only [L2sHost.reuse]
    split_ifs
    · rfl
    · have hlink := linkless_symlink s original intermediate
      rw [L2sHost.l2sSymlink_eq (linkless_l2sEntry original)] at hlink
      rw [hlink]
  by_cases hfree : s intermediate = none
  · left
    simp only [L2sHost.makeFamily, linkless_symlink, if_pos hfree, reduceCtorEq, if_false]
  by_cases husable : linklessHost.Usable s intermediate = true
  · left
    simp only [L2sHost.makeFamily, linkless_symlink, if_neg hfree, husable, if_true, hreuse]
  simp only [L2sHost.makeFamily, linkless_symlink, if_neg hfree, husable, if_true,
    Bool.false_eq_true, if_false, L2sHost.l2sUnlink_eq (linkless_l2sEntry _)]
  cases hnode : s intermediate with
  | none => exact absurd hnode hfree
  | some node =>
    by_cases hdir : node = .directory
    · left
      have hthere : s intermediate = some .directory := hdir ▸ hnode
      obtain ⟨e', he'⟩ := L2sHost.unlink_error (h := linklessHost) (.inr (.inl hthere))
      rw [he']
    · right
      rw [L2sHost.unlink_ok hnode hdir rfl]

/-- A file that stands for the intermediate is removed. -/
theorem linkless_makeFamily_file {d : Bool} (hi : s intermediate = some (.file d)) :
    (linklessHost.makeFamily s original intermediate final (.error e)).1 intermediate = none := by
  have husable : linklessHost.Usable s intermediate = false := by
    have hread : linklessHost.myReadlink s intermediate = .error .einval := by
      simp only [L2sHost.myReadlink, linkless_l2sEntry, hi]
    have hstat := L2sHost.l2sLstat_some (linkless_l2sEntry intermediate) hi
    simp only [L2sHost.Usable, hread, hstat]
  have hthere : s intermediate ≠ none := by simp [hi]
  simp only [L2sHost.makeFamily, linkless_symlink, if_neg hthere, husable, if_true,
    Bool.false_eq_true, if_false, L2sHost.l2sUnlink_eq (linkless_l2sEntry _),
    L2sHost.unlink_ok hi (by simp)
      (show linklessHost.refuses (.unlink intermediate) = none from rfl),
    Function.update_self]

/-- A file goes if it was replaced, or if it stands for the intermediate. -/
theorem linkless_makeFamily_ne {node : Node CStr Bool} (hnode : node ≠ .file false)
    (hs : s path = some node ∨ path = intermediate ∧ s path = some (.file false)) :
    (linklessHost.makeFamily s original intermediate final (.error e)).1 path ≠
      some (.file false) := by
  intro hkept
  cases hs with
  | inl hthere =>
    cases linkless_makeFamily s original intermediate final e with
    | inl hsame =>
      rw [hsame, hthere, Option.some.injEq] at hkept
      exact hnode hkept
    | inr hgone =>
      rw [hgone] at hkept
      by_cases hi : path = intermediate
      · rw [hi, Function.update_self] at hkept
        cases hkept
      · rw [Function.update_of_ne hi, hthere, Option.some.injEq] at hkept
        exact hnode hkept
  | inr hlast =>
    obtain ⟨hi, hfile⟩ := hlast
    subst hi
    rw [linkless_makeFamily_file hfile] at hkept
    cases hkept

theorem searchIntermediate_eq {h : L2sHost D} {s : HostStore D} {left suffix : ℕ} (hle : suffix ≤ n)
    (hn : n ≤ suffix + left)
    (hall : ∀ m, (h.l2sLstat s (numbered stem m)).isOk = true ∨ numbered stem m = numbered stem n)
    (hend : (h.l2sLstat s (numbered stem n)).isOk = true → n = suffix + left) :
    h.searchIntermediate s stem left suffix = numbered stem n := by
  induction left generalizing suffix with
  | zero =>
    have hsame : suffix = n := by omega
    rw [L2sHost.searchIntermediate, hsame]
  | succ left ih =>
    rw [L2sHost.searchIntermediate]
    split_ifs with htaken
    · have hne : suffix ≠ n := by
        rintro rfl
        have hlast := hend htaken
        omega
      exact ih (by omega) (by omega) fun hok => by
        have hlast := hend hok
        omega
    · cases hall suffix with
      | inl hok => exact absurd hok htaken
      | inr hsame => exact hsame

/-- A source whose first link makes names of this stem. -/
structure IsSource (q : CStr) (node : Node CStr Bool) (stem : CStr) : Prop where
  absolute : IsAbsolute q
  shorter : ∀ n, q.length < (numbered stem n).length
  node_ne : node ≠ .file false
  not_directory : node ≠ .directory
  moves : ∀ s : HostStore Bool, s q = some node →
    linklessHost.moveAndSymlinkPath s (.ok q) (.error .eacces) =
      linklessHost.firstLink s q stem (.error .eacces)

theorem length_numbered (stem : CStr) (n : ℕ) :
    (numbered stem n).length = min (pathMax - 1) (stem.length + 4) := by
  rw [numbered, List.length_take, List.length_append, length_fourDigits]

theorem exists_isSource (hstem : IsFirstStem stem) : ∃ q node, IsSource q node stem := by
  have hlarge : 100 < pathMax - 1 := by decide
  rw [IsFirstStem] at hstem
  split_ifs at hstem with hbegin
  · obtain ⟨habs, hfits⟩ := hstem
    obtain ⟨name, hname⟩ := List.isPrefixOf_iff_prefix.1 hbegin
    have hslash : '/' ∉ name := fun hmem =>
      slash_notMem_getFilename stem (hname ▸ List.mem_append_right _ hmem)
    have hsplit := directoryPart_append stem
    rw [← hname] at hsplit
    have hfive : l2sPrefix.length = 5 := rfl
    have hlen := congrArg List.length hsplit
    simp only [List.length_append, hfive] at hlen
    have hfile : getFilename (directoryPart stem ++ name) = name := by
      rw [getFilename_append hslash, getFilename_directoryPart, List.nil_append]
    have hstem' : linklessHost.stemOfFile (directoryPart stem ++ name) = .ok stem := by
      have hdir : linklessHost.getL2sDirectory = none := rfl
      have hroot : linklessHost.l2sDir ≠ some ['/'] := by simp [linklessHost]
      simp only [L2sHost.stemOfFile, hdir, if_neg hroot, hfile, List.length_append,
        Nat.add_sub_cancel, List.take_left, hfive]
      rw [if_neg (by omega), List.append_assoc, hsplit]
    refine ⟨directoryPart stem ++ name, .file true, ?_, fun n => ?_, by simp, by simp, ?_⟩
    · exact isAbsolute_append (directoryPart_absolute habs) _
    · rw [length_numbered, List.length_append]
      omega
    · intro s hs
      have hstat := L2sHost.l2sLstat_some (linkless_l2sEntry _) hs
      have hraw : ¬ linklessHost.RawDirectoryTooLong := by
        rintro ⟨value, hvalue, -⟩
        cases hvalue
      simp only [L2sHost.moveAndSymlinkPath, Except.toOption, Option.any_none, Bool.false_eq_true,
        if_false, if_neg hraw, hstat, hstem']
  · refine ⟨str "/q", .link stem, rfl, fun n => ?_, by simp, by simp, ?_⟩
    · have htwo : (str "/q").length = 2 := rfl
      rw [length_numbered, htwo]
      omega
    · intro s hs
      have hstat := L2sHost.l2sLstat_some (linkless_l2sEntry _) hs
      have hread := L2sHost.myReadlink_link (linkless_l2sEntry _) hs hstem
      have hraw : ¬ linklessHost.RawDirectoryTooLong := by
        rintro ⟨value, hvalue, -⟩
        cases hvalue
      have hinternal : ¬ isL2sInternalPath stem = true :=
        fun hin => hbegin (isPrefixOf_of_isL2sInternalPath hin)
      simp only [L2sHost.moveAndSymlinkPath, Except.toOption, Option.any_none, Bool.false_eq_true,
        if_false, if_neg hraw, hstat, hread, if_neg hinternal, if_neg hbegin]

/-- Every name is taken but this one. -/
def packed (path q : CStr) (node : Node CStr Bool) (free : CStr) : HostStore Bool := fun p =>
  if p = path then some (.file false)
  else if p = q then some node
  else if p = free then none
  else some (.file true)

section

variable {q : CStr} {node : Node CStr Bool} {free : CStr}

theorem packed_ne_directory (path q free : CStr) (hnode : node ≠ .directory) (p : CStr) :
    packed path q node free p ≠ some .directory := by
  rw [packed]
  split_ifs <;> simp [hnode]

theorem packed_source (node : Node CStr Bool) (free : CStr) (hq : q ≠ path) :
    packed path q node free q = some node := by
  rw [packed, if_neg hq, if_pos rfl]

theorem packed_taken {p : CStr} (hp : p ≠ free) : packed path q node free p ≠ none := by
  rw [packed]
  split_ifs <;> simp

theorem packed_free (hpath : free ≠ path) (hq : free ≠ q) :
    packed path q node free free = none := by
  rw [packed, if_neg hpath, if_neg hq, if_pos rfl]

theorem linkless_lstat_isOk (p : CStr) : (linklessHost.l2sLstat s p).isOk = true ↔ s p ≠ none := by
  cases hp : s p with
  | none => simp [L2sHost.l2sLstat_none (linkless_l2sEntry p) hp, Except.isOk, Except.toBool]
  | some node => simp [L2sHost.l2sLstat_some (linkless_l2sEntry p) hp, Except.isOk, Except.toBool]

theorem newIntermediate_packed (hpos : 1 ≤ n) (hn : n < maxLinkSuffix) (hq : numbered stem n ≠ q)
    (hlast : numbered stem n = path → n = maxLinkSuffix - 1) :
    linklessHost.newIntermediate (packed path q node (numbered stem n)) stem = numbered stem n := by
  have hsuffix : maxLinkSuffix = 1000 := rfl
  refine searchIntermediate_eq hpos (by omega) (fun m => ?_) fun htaken => ?_
  · rw [linkless_lstat_isOk, or_iff_not_imp_right]
    exact packed_taken
  · by_cases hpath : numbered stem n = path
    · rw [hlast hpath]
      omega
    · rw [linkless_lstat_isOk] at htaken
      exact absurd (packed_free hpath hq) htaken

theorem linkless_rename (hold : s old = some node) (hnode : node ≠ .directory)
    (hnew : s new ≠ some .directory) (hne : old ≠ new) : linklessHost.l2sRename s old new =
      .ok (Function.update (Function.update s old none) new (some node)) := by
  rw [L2sHost.l2sRename_eq (linkless_l2sEntry old) (linkless_l2sEntry new), L2sHost.rename.eq_def,
    hold]
  cases node with
  | directory => exact absurd rfl hnode
  | file d | link d =>
    cases hthere : s new with
    | none => simp only [if_neg hne, linklessHost]
    | some other =>
      cases other with
      | directory => exact absurd hthere hnew
      | file d' | link d' => simp only [if_neg hne, linklessHost]

end

theorem not_nameSafe_of_madeUp (hmade : MadeUp path) : ¬ NameSafe path := by
  intro hsafe
  obtain ⟨stem, hstem, hname⟩ := hmade
  obtain ⟨q, node, hsource⟩ := exists_isSource hstem
  have hsuffix : maxLinkSuffix = 1000 := rfl
  obtain ⟨n, hpos, hn, hlast, hfinal⟩ : ∃ n, 1 ≤ n ∧ n < maxLinkSuffix ∧
      (numbered stem n = path → n = maxLinkSuffix - 1) ∧
      (path = numbered stem n ∨ path = firstFinal (numbered stem n) ∧ path ≠ numbered stem n) := by
    cases hname with
    | inl hpath => exact ⟨maxLinkSuffix - 1, by omega, by omega, fun _ => rfl, .inl hpath⟩
    | inr hpath =>
      obtain ⟨n, hpos, hn, hpath, hne⟩ := hpath
      exact ⟨n, hpos, hn, fun heq => absurd heq.symm hne, .inr ⟨hpath, hne⟩⟩
  have hshort := hsource.shorter n
  have hlonger : (numbered stem n).length ≤ (firstFinal (numbered stem n)).length := by
    rw [firstFinal, List.length_take, List.length_append, length_numbered]
    omega
  have hqi : numbered stem n ≠ q := fun heq => by
    rw [heq] at hshort
    omega
  have hqf : q ≠ firstFinal (numbered stem n) := fun heq => by
    rw [← heq] at hlonger
    omega
  have hqp : q ≠ path := by
    cases hfinal with
    | inl hpath => exact fun heq => hqi (hpath ▸ heq.symm)
    | inr hpath => exact fun heq => hqf (hpath.1 ▸ heq)
  have hdirs := packed_ne_directory path q (numbered stem n) hsource.not_directory
  have hs : packed path q node (numbered stem n) path = some (.file false) := if_pos rfl
  have hkept := (hsafe Bool linklessHost _ false hs fun p _ => hdirs p).2.2.2 q (.error .eacces)
    hsource.absolute hqp
  have hold := packed_source node (numbered stem n) hqp
  rw [hsource.moves _ hold] at hkept
  simp only [L2sHost.firstLink, newIntermediate_packed hpos hn hqi hlast,
    linkless_rename hold hsource.not_directory (hdirs _) hqf] at hkept
  refine linkless_makeFamily_ne hsource.node_ne ?_ hkept
  by_cases hreplaced : path = firstFinal (numbered stem n)
  · left
    rw [hreplaced, Function.update_self]
  · right
    refine ⟨hfinal.resolve_right fun hpath => hreplaced hpath.1, ?_⟩
    rw [Function.update_of_ne hreplaced, Function.update_of_ne hqp.symm]
    exact hs

/-- A file that is called a final file is shown with the count in its name. -/
theorem not_nameSafe_of_isL2sFile (hfile : isL2sFile path = true) : ¬ NameSafe path := by
  intro hsafe
  let s : HostStore Bool := fun p => if p = path then some (.file false) else none
  have hs : s path = some (.file false) := if_pos rfl
  have hstat := (hsafe Bool linklessHost s false hs fun p _ => by
    simp only [s]
    split_ifs <;> simp).1
  have hthere := L2sHost.l2sLstat_some (linkless_l2sEntry path) hs
  simp only [L2sHost.statNlink, L2sHost.finalNlink, hthere,
    if_pos (isL2sInternalPath_of_isL2sFile hfile), Except.ok.injEq] at hstat
  exact parseL2sFinalCount_ne_none hfile hstat

theorem nameSafe_iff : NameSafe path ↔ isL2sFile path = false ∧ ¬ MadeUp path := by
  constructor
  · intro hsafe
    refine ⟨Bool.eq_false_iff.2 fun hfile => not_nameSafe_of_isL2sFile hfile hsafe, fun hmade => ?_⟩
    exact not_nameSafe_of_madeUp hmade hsafe
  · rintro ⟨hfile, hmade⟩ D h s c hs hdirs
    have hplace : InPlace path c s := ⟨hs, hdirs⟩
    refine ⟨?_, ?_, fun q => (hplace.decrementLinkCount hfile _).file, fun q dest habs hq =>
      (hplace.moveAndSymlinkPath hfile hmade habs hq dest).file⟩
    · rw [L2sHost.statNlink]
      cases hstat : h.l2sLstat s path with
      | error e => rfl
      | ok node =>
        rw [hplace.node_eq hstat]
        split_ifs
        · simp only [L2sHost.finalNlink, hstat, parseL2sFinalCount_eq_none hfile]
        · rfl
    · rw [statxNlink_eq, parseL2sFinalCount_eq_none hfile, ite_self]

end

/-! ### The grammar -/

/-- **Which names are told apart, and which files are left alone.**  The names of a
family are told apart if the name of the file is not empty, does not end in a dot, and
leaves room for the count.  A file is left alone if it is not called as a final file is,
nor as a first link may call its own. -/
theorem grammar_iff {h : L2sHost D} {original stem : CStr} (habs : IsAbsolute original)
    (hstem : h.stemOfFile original = .ok stem) (n : ℕ) (path : CStr) :
    Unambiguous (numbered stem n) ∧ NameSafe path ↔
      (getFilename original ≠ [] ∧ (getFilename original).getLast? ≠ some '.' ∧
        stem.length + 9 ≤ pathMax - 1) ∧ isL2sFile path = false ∧ ¬ MadeUp path := by
  have hs := L2sHost.isStem_of_stemOfFile habs hstem
  have hlen : (numbered stem n).length = stem.length + 4 := by
    rw [hs.numbered_eq, List.length_append, length_fourDigits]
  rw [hs.unambiguous_iff, nameSafe_iff, hlen]

theorem grammar_x : Unambiguous (numbered (str "/d/.l2s.x") 1) ∧ NameSafe (str "/d/y") := by
  have habs : IsAbsolute (str "/d/x") := rfl
  have hstem : linklessHost.stemOfFile (str "/d/x") = .ok (str "/d/.l2s.x") := by decide +kernel
  refine (grammar_iff habs hstem 1 (str "/d/y")).2 ⟨by decide +kernel, by decide +kernel, ?_⟩
  rintro ⟨stem, -, hname⟩
  have hfour : (str "/d/y").length = 4 := rfl
  have hlarge : 100 < pathMax - 1 := by decide
  cases hname with
  | inl hlast =>
    have hlen := congrArg List.length hlast
    rw [length_numbered, hfour] at hlen
    have hnil : stem = [] := List.length_eq_zero_iff.1 (by omega)
    rw [hnil] at hlast
    exact absurd hlast (by decide +kernel)
  | inr hfinal =>
    obtain ⟨n, -, -, hpath, -⟩ := hfinal
    have hlen := congrArg List.length hpath
    have hfive : (str ".0002").length = 5 := rfl
    rw [firstFinal, List.length_take, List.length_append, length_numbered, hfour, hfive] at hlen
    omega

/-- The intermediate of a file whose name ends in a dot is called as a final file is. -/
theorem dotted_intermediate_isL2sFile :
    linklessHost.stemOfFile (str "/d/x.") = .ok (str "/d/.l2s.x.") ∧
      isL2sFile (numbered (str "/d/.l2s.x.") 1) = true ∧
      ¬ Unambiguous (numbered (str "/d/.l2s.x.") 1) := by
  have hfile : isL2sFile (numbered (str "/d/.l2s.x.") 1) = true := by decide +kernel
  refine ⟨by decide +kernel, hfile, fun hu => ?_⟩
  have hnot := hu.not_final
  rw [hfile] at hnot
  cases hnot

end NeoProot.Link2symlink
