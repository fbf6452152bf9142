import NeoProot.Extension.Link2symlink
import Mathlib.Tactic.IntervalCases

/-!
# The names of a family

Facts about the names that `link2symlink` makes up: what their file name is, which
of them can coincide, and what the search of a free name ends with.

## Main definitions

* `IsStem` — the name of an intermediate without its number.
* `firstFinal_eq` to `uncounted_ne` — the names of a new family are four.
-/

namespace NeoProot.Link2symlink
open LinkStore

/-! ### File names -/

theorem getFilename_append {a b : CStr} (h : '/' ∉ b) :
    getFilename (a ++ b) = getFilename a ++ b := by
  induction b using List.reverseRecOn with
  | nil => simp
  | append_singleton b c ih =>
    have hc : c ≠ '/' := fun hc => h (by simp [hc])
    have hb : '/' ∉ b := fun hb => h (by simp [hb])
    have hstep := List.rtakeWhile_concat_pos (fun x : Char => decide (x ≠ '/')) (a ++ b) c
      (by simp [hc])
    rw [← List.append_assoc, getFilename, hstep, ← getFilename, ih hb, List.append_assoc]

theorem getFilename_slash (a : CStr) : getFilename (a ++ ['/']) = [] :=
  List.rtakeWhile_concat_neg (fun x : Char => decide (x ≠ '/')) a '/' (by simp)

theorem slash_notMem_getFilename (path : CStr) : '/' ∉ getFilename path := by
  intro h
  have hne := List.mem_rtakeWhile_imp h
  simp at hne

/-- What stands in front of the file name. -/
def directoryPart (path : CStr) : CStr := path.take (path.length - (getFilename path).length)

theorem directoryPart_eq (path : CStr) : directoryPart path = path.rdropWhile (· ≠ '/') := by
  have hsplit : path.rdropWhile (· ≠ '/') ++ getFilename path = path :=
    List.rdropWhile_append_rtakeWhile
  have hlen := congrArg List.length hsplit
  rw [List.length_append] at hlen
  calc directoryPart path
      = path.take (path.rdropWhile (· ≠ '/')).length := by
        rw [directoryPart]
        congr 1
        omega
    _ = (path.rdropWhile (· ≠ '/') ++ getFilename path).take
          (path.rdropWhile (· ≠ '/')).length := by rw [hsplit]
    _ = path.rdropWhile (· ≠ '/') := List.take_left

theorem directoryPart_append (path : CStr) : directoryPart path ++ getFilename path = path := by
  rw [directoryPart_eq]
  exact List.rdropWhile_append_rtakeWhile

theorem getFilename_directoryPart (path : CStr) : getFilename (directoryPart path) = [] := by
  rw [directoryPart_eq, getFilename, List.rtakeWhile_eq_nil_iff]
  intro hne hlast
  exact List.rdropWhile_last_not _ _ hne hlast

theorem isAbsolute_append {a : CStr} (h : IsAbsolute a) (b : CStr) : IsAbsolute (a ++ b) := by
  cases a with
  | nil => cases h
  | cons c cs => exact h

/-! ### Digits -/

theorem isDigit_digitChar {n : ℕ} (h : n < 10) : (Nat.digitChar n).isDigit = true := by
  interval_cases n <;> rfl

theorem digit_digitChar {n : ℕ} (h : n < 10) : parse4digit.digit (Nat.digitChar n) = n := by
  interval_cases n <;> rfl

theorem fourDigits_all (n : ℕ) : (fourDigits n).all Char.isDigit = true := by
  simp only [fourDigits, List.all_cons, List.all_nil, Bool.and_true, Bool.and_eq_true]
  exact ⟨isDigit_digitChar (by omega), isDigit_digitChar (by omega), isDigit_digitChar (by omega),
    isDigit_digitChar (by omega)⟩

@[simp] theorem length_fourDigits (n : ℕ) : (fourDigits n).length = 4 := rfl

theorem parse4digit_fourDigits {n : ℕ} (h : n ≤ maxLinkCount) : parse4digit (fourDigits n) = n := by
  rw [maxLinkCount] at h
  simp only [fourDigits, parse4digit]
  rw [digit_digitChar (by omega), digit_digitChar (by omega), digit_digitChar (by omega),
    digit_digitChar (by omega)]
  omega

theorem fourDigits_injective {n m : ℕ} (hn : n ≤ maxLinkCount) (hm : m ≤ maxLinkCount)
    (h : fourDigits n = fourDigits m) : n = m := by
  rw [← parse4digit_fourDigits hn, h, parse4digit_fourDigits hm]

theorem slash_notMem_fourDigits (n : ℕ) : '/' ∉ fourDigits n := by
  intro h
  have hdigit := List.all_eq_true.1 (fourDigits_all n) _ h
  exact absurd hdigit (by decide)

/-! ### The names of a new family -/

/-- The name of the intermediate of a file, without its number. -/
structure IsStem (original stem : CStr) : Prop where
  absolute : IsAbsolute stem
  filename : getFilename stem = l2sPrefix ++ getFilename original
  fits : stem.length + 4 < pathMax - 1

section

variable {D : Type} {h : L2sHost D} {original stem : CStr}

theorem L2sHost.getL2sDirectory_absolute {directory : CStr}
    (hdir : h.getL2sDirectory = some directory) : IsAbsolute directory := by
  rw [L2sHost.getL2sDirectory] at hdir
  cases hvalue : h.l2sDir with
  | none => simp [hvalue] at hdir
  | some value =>
    simp only [hvalue] at hdir
    split_ifs at hdir with hbad hroot
    rw [Option.some.injEq] at hdir
    have habs := h.l2sDir_absolute value hvalue fun hnil => hbad (.inl hnil)
    obtain ⟨rest, hrest⟩ := List.rdropWhile_prefix (fun c : Char => decide (c = '/')) value
    rw [← hdir]
    cases hdrop : value.rdropWhile (· = '/') with
    | nil => exact absurd hdrop hroot
    | cons c cs =>
      rw [hdrop] at hrest
      rw [← hrest] at habs
      exact habs

theorem directoryPart_absolute (hp : IsAbsolute original) :
    IsAbsolute (directoryPart original) := by
  have hsplit := directoryPart_append original
  cases hdir : directoryPart original with
  | nil =>
    rw [hdir, List.nil_append] at hsplit
    have hmem : '/' ∈ original := List.mem_of_mem_head? hp
    rw [← hsplit] at hmem
    exact absurd hmem (slash_notMem_getFilename original)
  | cons c cs =>
    rw [hdir] at hsplit
    rw [← hsplit] at hp
    exact hp

theorem getFilename_below {directory : CStr} (hdir : getFilename directory = []) (original : CStr) :
    getFilename (directory ++ l2sPrefix ++ getFilename original) =
      l2sPrefix ++ getFilename original := by
  rw [getFilename_append (slash_notMem_getFilename original), getFilename_append (by decide), hdir,
    List.nil_append]

theorem L2sHost.isStem_of_stemOfFile (hp : IsAbsolute original)
    (hstem : h.stemOfFile original = .ok stem) : IsStem original stem := by
  rw [stemOfFile] at hstem
  cases hdir : h.getL2sDirectory with
  | some directory =>
    cases hopen : h.openDirectory with
    | error e => simp [hdir, hopen] at hstem
    | ok u =>
      simp only [hdir, hopen] at hstem
      split_ifs at hstem with hlong
      cases hstem
      refine ⟨?_, getFilename_below (getFilename_slash directory) original, ?_⟩
      · simp only [List.append_assoc]
        exact isAbsolute_append (L2sHost.getL2sDirectory_absolute hdir) _
      · simp only [List.length_append, List.length_singleton] at hlong ⊢
        omega
  | none =>
    simp only [hdir] at hstem
    split_ifs at hstem with hroot hlong hlong
    · cases hstem
      refine ⟨rfl, getFilename_below (getFilename_slash []) original, ?_⟩
      simp only [List.length_append, List.length_singleton] at hlong ⊢
      omega
    · cases hstem
      have hlen := congrArg List.length (directoryPart_append original)
      rw [List.length_append] at hlen
      refine ⟨?_, getFilename_below (getFilename_directoryPart original) original, ?_⟩
      · rw [List.append_assoc]
        exact isAbsolute_append (directoryPart_absolute hp) _
      · have htake : (original.take (original.length - (getFilename original).length)).length =
            original.length - (getFilename original).length := by
          rw [List.length_take]
          omega
        simp only [List.length_append, htake]
        omega

/-- Once a stem is found, the backing directory is open. -/
theorem L2sHost.l2sEntry_of_stemOfFile (hstem : h.stemOfFile original = .ok stem) (path : CStr) :
    h.l2sEntry path = .ok () := by
  rw [l2sEntry]
  cases hdir : h.getL2sDirectory with
  | none => rfl
  | some directory =>
    cases hopen : h.openDirectory with
    | error e => simp [stemOfFile, hdir, hopen] at hstem
    | ok u => simp

/-- A final name that is not cut short. -/
theorem firstFinal_eq_of_lt {intermediate : CStr}
    (hlt : (firstFinal intermediate).length < pathMax - 1) :
    firstFinal intermediate = intermediate ++ str ".0002" := by
  rw [firstFinal, List.length_take] at hlt
  rw [firstFinal, List.take_of_length_le]
  omega

theorem withLinkCount_append (intermediate : CStr) (count count' : ℕ) :
    withLinkCount (intermediate ++ ('.' :: fourDigits count)) count' =
      intermediate ++ ('.' :: fourDigits count') := by
  have hsplit : intermediate ++ ('.' :: fourDigits count) =
      (intermediate ++ ['.']) ++ fourDigits count := by simp
  rw [withLinkCount, hsplit, List.length_append, length_fourDigits, Nat.add_sub_cancel,
    List.take_left]
  simp

/-! ### The final files of an intermediate -/

/-- The name of the final file of an intermediate with so many links. -/
def finalOf (intermediate : CStr) (count : ℕ) : CStr := intermediate ++ '.' :: fourDigits count

section

variable {intermediate other : CStr} {n m : ℕ}

theorem length_finalOf (intermediate : CStr) (n : ℕ) :
    (finalOf intermediate n).length = intermediate.length + 5 := by
  rw [finalOf, List.length_append, List.length_cons, length_fourDigits]

theorem finalOf_ne (intermediate : CStr) (n : ℕ) : finalOf intermediate n ≠ intermediate := by
  intro heq
  have hlen := congrArg List.length heq
  rw [length_finalOf] at hlen
  omega

theorem finalOf_inj (h : finalOf intermediate n = finalOf other m) :
    intermediate = other ∧ fourDigits n = fourDigits m := by
  obtain ⟨hbase, hcount⟩ := List.append_inj' h (by simp)
  exact ⟨hbase, (List.cons.inj hcount).2⟩

variable (intermediate) in
theorem finalOf_ne_finalOf (hn : n ≤ maxLinkCount) (hm : m ≤ maxLinkCount) (hne : n ≠ m) :
    finalOf intermediate n ≠ finalOf intermediate m :=
  fun heq => hne (fourDigits_injective hn hm (finalOf_inj heq).2)

theorem withLinkCount_finalOf (intermediate : CStr) (n m : ℕ) :
    withLinkCount (finalOf intermediate n) m = finalOf intermediate m :=
  withLinkCount_append intermediate n m

theorem getFilename_finalOf (intermediate : CStr) (n : ℕ) :
    getFilename (finalOf intermediate n) = getFilename intermediate ++ '.' :: fourDigits n := by
  refine getFilename_append fun hmem => ?_
  cases hmem with
  | tail _ hmem => exact slash_notMem_fourDigits n hmem

theorem parse_finalOf (hbegin : l2sPrefix.isPrefixOf (getFilename intermediate) = true)
    (hn : n ≤ maxLinkCount) : parseL2sFinalCount (finalOf intermediate n) = some n := by
  obtain ⟨rest, hrest⟩ := List.isPrefixOf_iff_prefix.1 hbegin
  have hname : getFilename (finalOf intermediate n) =
      (l2sPrefix ++ rest ++ ['.']) ++ fourDigits n := by
    rw [getFilename_finalOf, ← hrest]
    simp
  have hlast : lastFour (getFilename (finalOf intermediate n)) = fourDigits n := by
    rw [hname, lastFour, List.length_append, length_fourDigits, Nat.add_sub_cancel,
      List.drop_left]
  have hfile : isL2sFile (finalOf intermediate n) = true := by
    simp only [isL2sFile, hlast, fourDigits_all, Bool.and_true, Bool.and_eq_true,
      decide_eq_true_eq, List.isPrefixOf_iff_prefix, beq_iff_eq]
    rw [hname]
    refine ⟨⟨?_, ?_⟩, ?_⟩
    · simp only [List.append_assoc]
      exact List.prefix_append _ _
    · simp only [List.length_append, length_fourDigits, List.length_singleton]
      omega
    · have hlen : (l2sPrefix ++ rest ++ ['.'] ++ fourDigits n).length - 5 =
          (l2sPrefix ++ rest).length := by
        simp only [List.length_append, length_fourDigits, List.length_singleton]
        omega
      rw [hlen, List.append_assoc, List.getElem?_append_right le_rfl, Nat.sub_self]
      rfl
  rw [parseL2sFinalCount, if_pos hfile, hlast, parse4digit_fourDigits hn]

theorem isPrefixOf_of_isL2sInternalPath (h : isL2sInternalPath intermediate = true) :
    l2sPrefix.isPrefixOf (getFilename intermediate) = true := by
  rw [isL2sInternalPath, isL2sInternalName, Bool.and_eq_true, Bool.and_eq_true] at h
  exact h.1.1

theorem isPrefixOf_finalOf (h : l2sPrefix.isPrefixOf (getFilename intermediate) = true) (n : ℕ) :
    l2sPrefix.isPrefixOf (getFilename (finalOf intermediate n)) = true := by
  rw [getFilename_finalOf, List.isPrefixOf_iff_prefix]
  exact (List.isPrefixOf_iff_prefix.1 h).trans (List.prefix_append _ _)

theorem isL2sInternalPath_finalOf (h : isL2sInternalPath intermediate = true) (n : ℕ) :
    isL2sInternalPath (finalOf intermediate n) = true := by
  have hbegin := isPrefixOf_of_isL2sInternalPath h
  have hlen := (List.isPrefixOf_iff_prefix.1 hbegin).length_le
  rw [isL2sInternalPath, isL2sInternalName, isPrefixOf_finalOf hbegin, Bool.true_and,
    Bool.and_eq_true, decide_eq_true_eq, getFilename_finalOf]
  constructor
  · rw [List.length_append, List.length_cons, length_fourDigits]
    omega
  · have hsplit : getFilename intermediate ++ '.' :: fourDigits n =
        (getFilename intermediate ++ ['.']) ++ fourDigits n := by simp
    rw [hsplit, lastFour, List.length_append, length_fourDigits, Nat.add_sub_cancel,
      List.drop_left]
    exact fourDigits_all n

/-- A final file is in the directory of its intermediate. -/
theorem isChildOf_finalOf (directory : CStr) (h : getFilename intermediate ≠ []) (n : ℕ) :
    isChildOf (directory ++ ['/']) (finalOf intermediate n) =
      isChildOf (directory ++ ['/']) intermediate := by
  have hdot : '/' ∉ '.' :: fourDigits n := by
    intro hmem
    cases hmem with
    | tail _ hmem => exact slash_notMem_fourDigits n hmem
  by_cases hchild : directory ++ ['/'] <+: intermediate
  · obtain ⟨rest, rfl⟩ := hchild
    have hrest : rest ≠ [] := by
      rintro rfl
      rw [List.append_nil, getFilename_slash] at h
      exact h rfl
    have hsplit : finalOf (directory ++ ['/'] ++ rest) n =
        (directory ++ ['/']) ++ (rest ++ '.' :: fourDigits n) := List.append_assoc ..
    have hslash : '/' ∈ rest ++ '.' :: fourDigits n ↔ '/' ∈ rest := by
      rw [List.mem_append, or_iff_left hdot]
    rw [Bool.eq_iff_iff, hsplit]
    simp only [isChildOf, List.isPrefixOf_iff_prefix.2 (List.prefix_append _ _), List.drop_left,
      Bool.true_and, Bool.and_eq_true, Bool.not_eq_true', List.isEmpty_eq_false_iff, hrest,
      List.append_eq_nil_iff, false_and, not_false_eq_true, ne_eq, true_and,
      List.contains_eq_mem, decide_eq_false_iff_not, hslash]
  · have hfinal : ¬ directory ++ ['/'] <+: finalOf intermediate n := by
      intro hpre
      cases List.prefix_or_prefix_of_prefix hpre (List.prefix_append _ _) with
      | inl hshort => exact hchild hshort
      | inr hlong =>
        obtain ⟨more, hmore⟩ := hlong
        rw [← hmore, finalOf, List.prefix_append_right_inj] at hpre
        cases List.eq_nil_or_concat more with
        | inl hnil =>
          rw [hnil, List.append_nil] at hmore
          exact hchild (hmore ▸ List.prefix_refl _)
        | inr hlast =>
          obtain ⟨front, c, rfl⟩ := hlast
          have hc : c = '/' := by
            have hend := congrArg List.getLast? hmore
            simpa using hend
          exact hdot (hpre.subset (by simp [hc]))
    have hno : ∀ path : CStr, ¬ directory ++ ['/'] <+: path →
        isChildOf (directory ++ ['/']) path = false := by
      intro path hpath
      rw [isChildOf, Bool.eq_false_iff.2 fun h => hpath (List.isPrefixOf_iff_prefix.1 h),
        Bool.false_and]
    rw [hno _ hchild, hno _ hfinal]

end

namespace IsStem

variable (hs : IsStem original stem)
include hs

theorem numbered_eq (n : ℕ) : numbered stem n = stem ++ fourDigits n := by
  have hfits := hs.fits
  rw [numbered, List.take_of_length_le]
  rw [List.length_append, length_fourDigits]
  omega

theorem length_numbered_lt (n : ℕ) : (numbered stem n).length < pathMax - 1 := by
  rw [hs.numbered_eq, List.length_append, length_fourDigits]
  exact hs.fits

theorem numbered_absolute (n : ℕ) : IsAbsolute (numbered stem n) := by
  rw [hs.numbered_eq]
  exact isAbsolute_append hs.absolute _

theorem getFilename_numbered (n : ℕ) :
    getFilename (numbered stem n) = l2sPrefix ++ getFilename original ++ fourDigits n := by
  rw [hs.numbered_eq, getFilename_append (slash_notMem_fourDigits n), hs.filename]

theorem firstFinal_eq (n : ℕ) : firstFinal (numbered stem n) =
    numbered stem n ++ (str ".0002").take (pathMax - 1 - (numbered stem n).length) := by
  rw [firstFinal, List.take_append, List.take_of_length_le (hs.length_numbered_lt n).le]

theorem getFilename_firstFinal (n : ℕ) : getFilename (firstFinal (numbered stem n)) =
    l2sPrefix ++ (getFilename original ++ fourDigits n ++
      (str ".0002").take (pathMax - 1 - (numbered stem n).length)) := by
  rw [hs.firstFinal_eq, getFilename_append, hs.getFilename_numbered]
  · simp only [List.append_assoc]
  · intro hmem
    exact absurd (List.mem_of_mem_take hmem) (by decide)

theorem isPrefixOf_numbered (n : ℕ) :
    l2sPrefix.isPrefixOf (getFilename (numbered stem n)) = true := by
  rw [hs.getFilename_numbered, List.isPrefixOf_iff_prefix, List.append_assoc]
  exact List.prefix_append _ _

theorem parse_append {n count : ℕ} (hcount : count ≤ maxLinkCount) :
    parseL2sFinalCount (numbered stem n ++ ('.' :: fourDigits count)) = some count :=
  parse_finalOf (hs.isPrefixOf_numbered n) hcount

theorem l2sPrefix_isPrefixOf (n : ℕ) {rest : CStr} (hrest : '/' ∉ rest) :
    l2sPrefix.isPrefixOf (getFilename (numbered stem n ++ rest)) = true := by
  rw [getFilename_append hrest, hs.getFilename_numbered, List.isPrefixOf_iff_prefix]
  simp only [List.append_assoc]
  exact List.prefix_append _ _

/-- A name that the family adds leads to itself, and is not the name of the file. -/
theorem follow_append (h : L2sHost D) (n : ℕ) {rest : CStr} (hrest : '/' ∉ rest) (path : CStr) :
    h.follow path (numbered stem n ++ rest) = numbered stem n ++ rest :=
  h.follow_l2s path _ (isAbsolute_append (hs.numbered_absolute n) rest)
    (hs.l2sPrefix_isPrefixOf n hrest)

theorem append_ne (n : ℕ) {rest : CStr} (hrest : '/' ∉ rest) :
    numbered stem n ++ rest ≠ original := by
  intro heq
  have hname := congrArg (fun path => (getFilename path).length) heq
  simp only [getFilename_append hrest, hs.getFilename_numbered, List.length_append,
    length_fourDigits] at hname
  omega

end IsStem

/-- The names of a new family: they differ from the file and from each other, and
links to them lead to them. -/
structure NewNames (h : L2sHost D) (original intermediate final : CStr) : Prop where
  entry : ∀ path, h.l2sEntry path = .ok ()
  short : intermediate.length < pathMax - 1
  intermediate_ne : intermediate ≠ original
  final_ne : final ≠ original
  final_ne_intermediate : final ≠ intermediate
  follow_intermediate : ∀ path, h.follow path intermediate = intermediate
  follow_final : ∀ path, h.follow path final = final
  /-- A name cut short is not the name of a final file. -/
  parse : final.length < pathMax - 1 → parseL2sFinalCount final = some 2
  uncounted_ne : final.length < pathMax - 1 → withLinkCount final 1 ≠ original
  uncounted_ne_intermediate : final.length < pathMax - 1 → withLinkCount final 1 ≠ intermediate
  uncounted_ne_final : final.length < pathMax - 1 → withLinkCount final 1 ≠ final
  follow_uncounted : final.length < pathMax - 1 →
    ∀ path, h.follow path (withLinkCount final 1) = withLinkCount final 1

theorem L2sHost.newNames (hp : IsAbsolute original) (hstem : h.stemOfFile original = .ok stem)
    (n : ℕ) : NewNames h original (numbered stem n) (firstFinal (numbered stem n)) := by
  have hs := isStem_of_stemOfFile hp hstem
  have hdot : '/' ∉ (str ".0002").take (pathMax - 1 - (numbered stem n).length) := by
    intro hmem
    exact absurd (List.mem_of_mem_take hmem) (by decide)
  have hone : '/' ∉ ('.' :: fourDigits 1) := by decide
  have hlen := hs.length_numbered_lt n
  have htwo : str ".0002" = '.' :: fourDigits 2 := rfl
  have huncut : (firstFinal (numbered stem n)).length < pathMax - 1 →
      withLinkCount (firstFinal (numbered stem n)) 1 =
        numbered stem n ++ ('.' :: fourDigits 1) := by
    intro hlt
    rw [firstFinal_eq_of_lt hlt, htwo, withLinkCount_append]
  have hself := hs.append_ne n (List.not_mem_nil (a := '/'))
  have hfollow := hs.follow_append h n (List.not_mem_nil (a := '/'))
  rw [List.append_nil] at hself hfollow
  refine ⟨l2sEntry_of_stemOfFile hstem, hlen, hself, ?_, ?_, hfollow, ?_, ?_, ?_, ?_, ?_, ?_⟩
  · rw [hs.firstFinal_eq]
    exact hs.append_ne n hdot
  · intro heq
    have hlength := congrArg List.length heq
    rw [hs.firstFinal_eq, List.length_append, List.length_take] at hlength
    have hfive : (str ".0002").length = 5 := rfl
    omega
  · rw [hs.firstFinal_eq]
    exact hs.follow_append h n hdot
  · intro hlt
    rw [firstFinal_eq_of_lt hlt, htwo]
    exact hs.parse_append (by decide)
  · intro hlt
    rw [huncut hlt]
    exact hs.append_ne n hone
  · intro hlt heq
    rw [huncut hlt] at heq
    have hlength := congrArg List.length heq
    simp at hlength
  · intro hlt heq
    rw [huncut hlt, firstFinal_eq_of_lt hlt, htwo, List.append_cancel_left_eq] at heq
    exact absurd heq (by decide)
  · intro hlt
    rw [huncut hlt]
    exact hs.follow_append h n hone

/-! ### The search -/

variable (h) in
/-- The search ends with a free name, or with the last number after none was free. -/
theorem L2sHost.searchIntermediate_spec (s : HostStore D) (stem : CStr) (left suffix : ℕ) :
    ∃ n, suffix ≤ n ∧ n ≤ suffix + left ∧
      h.searchIntermediate s stem left suffix = numbered stem n ∧
      ((h.l2sLstat s (numbered stem n)).isOk = true → n = suffix + left ∧
        ∀ m, suffix ≤ m → m < n → (h.l2sLstat s (numbered stem m)).isOk = true) := by
  induction left generalizing suffix with
  | zero => exact ⟨suffix, le_rfl, le_rfl, rfl, fun _ => ⟨rfl, fun m hm hlt => by omega⟩⟩
  | succ left ih =>
    rw [searchIntermediate]
    by_cases htaken : (h.l2sLstat s (numbered stem suffix)).isOk = true
    · obtain ⟨n, hge, hle, heq, hlast⟩ := ih (suffix + 1)
      rw [if_pos htaken]
      refine ⟨n, by omega, by omega, heq, fun hok => ?_⟩
      obtain ⟨hn, hall⟩ := hlast hok
      refine ⟨by omega, fun m hm hlt => ?_⟩
      by_cases hfirst : m = suffix
      · rw [hfirst]
        exact htaken
      · exact hall m (by omega) hlt
    · rw [if_neg htaken]
      exact ⟨suffix, le_rfl, by omega, rfl, fun hok => absurd hok htaken⟩

end

end NeoProot.Link2symlink
