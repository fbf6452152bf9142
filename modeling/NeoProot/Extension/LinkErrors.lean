import NeoProot.Extension.FamilyStore

/-!
# Names after an error

Which errors of the host leave every name that the guest sees as it was.  A new
number of links moves the data before the intermediate follows it, so most errors
after the first do not.

## Main results

* `decrement_keeps_iff` — a link less.
* `nextLink_keeps_iff`, `firstLink_keeps_iff` — a link more.
* `move_keeps` — a link more of any source.
-/

namespace NeoProot.Link2symlink
open LinkStore

variable {D : Type}

/-- The functions find this intermediate behind the name. -/
structure Reads (h : L2sHost D) (s : HostStore D) (path intermediate : CStr) : Prop where
  link : s path = some (.link intermediate)
  isInternal : isL2sInternalPath intermediate = true
  /-- The names of the family fit into a buffer. -/
  short : intermediate.length + 5 < pathMax - 1
  entry : h.l2sEntry path = .ok ()
  entry_intermediate : h.l2sEntry intermediate = .ok ()

/-! ### One link less -/

section

variable (h : L2sHost D) (s : HostStore D) (path : CStr)

/-- The name is the last of a family. -/
def LastLink : Prop := ∃ intermediate c, Reads h s path intermediate ∧ IsFamily s intermediate 1 c

/-- **What `decrement_link_count` must leave.**  The data of a family may go with its
last link. -/
def DecrementKeeps : Prop :=
  ¬ ((h.decrementLinkCount s (.ok path)).2 = .ok () ∧ LastLink h s path) →
    NamesKept h s (h.decrementLinkCount s (.ok path)).1
      (∃ e, (h.decrementLinkCount s (.ok path)).2 = .error e)

/-- The calls that fail do no harm: nothing has moved, or everything follows. -/
def DecrementSpares : Prop :=
  ∀ intermediate n c, Reads h s path intermediate → IsFamily s intermediate n c →
    if n = 1 then
      h.refuses (.unlink intermediate) ≠ none ∨ h.refuses (.unlink (finalOf intermediate 1)) = none
    else
      ¬ h.Renames s (finalOf intermediate n) (finalOf intermediate (n - 1)) ∨
        h.Relinks intermediate (n - 1)

end

section

variable {h : L2sHost D} {s s' : HostStore D} {path intermediate : CStr} {n : ℕ} {c : D}

theorem namesKept_refl {failed : Prop} : NamesKept h s s failed :=
  ⟨keepsOutside_refl, fun _ _ _ hnone => hnone⟩

/-- Where no visible name changes, no new one is made. -/
theorem NamesKept.of_visible {failed : Prop} (hread : Readable h s s')
    (hvisible : ∀ q, isL2sInternalPath q = false → s' q = s q) : NamesKept h s s' failed :=
  ⟨hread, fun _ q hq hnone => (hvisible q hq).trans hnone⟩

theorem Reads.isIntermediate (hr : Reads h s path intermediate) (ht : Tidy h s)
    (hpath : isL2sInternalPath path = false) : IsIntermediate h intermediate :=
  ⟨hr.isInternal, ht.text_absolute path _ hpath hr.link hr.isInternal, hr.entry_intermediate⟩

theorem Reads.named (hr : Reads h s path intermediate) (ht : Tidy h s)
    (hpath : isL2sInternalPath path = false) : Named h s intermediate := by
  refine ⟨hr.isInternal, path, intermediate, hpath, hr.link, ?_⟩
  exact follow_internal hr.isInternal (hr.isIntermediate ht hpath).absolute path

/-- A family that is read has at least one link. -/
theorem IsFamily.pos (hf : IsFamily s intermediate n c) (hn : Named h s intermediate)
    (ht : Tidy h s) : 1 ≤ n := by
  cases ht.family _ hn with
  | inl hnone => rw [hf.linked] at hnone; cases hnone
  | inr hlink =>
    obtain ⟨m, hpos, hle, hm, -⟩ := hlink
    rw [fourDigits_injective hf.count hle (finalOf_inj (link_unique hf.linked hm)).2]
    exact hpos

/-- What `decrement_link_count` does with a family. -/
theorem decrement_eq (hr : Reads h s path intermediate)
    (hlink : s intermediate = some (.link (finalOf intermediate n))) (hn : n ≤ maxLinkCount) :
    h.decrementLinkCount s (.ok path) =
      if 0 < n - 1 then
        h.recount s intermediate (finalOf intermediate n) (finalOf intermediate (n - 1))
      else h.removeFamily s intermediate (finalOf intermediate n) := by
  have hshort := hr.short
  have hfinal : (finalOf intermediate n).length < pathMax - 1 := by
    rw [length_finalOf]
    exact hshort
  simp only [L2sHost.decrementLinkCount, L2sHost.l2sLstat_some hr.entry hr.link,
    L2sHost.myReadlink_link hr.entry hr.link (by omega), if_pos hr.isInternal,
    L2sHost.myReadlink_link hr.entry_intermediate hlink hfinal,
    parse_finalOf (isPrefixOf_of_isL2sInternalPath hr.isInternal) hn, withLinkCount_finalOf]

theorem exists_of_myReadlink {text : CStr} (hread : h.myReadlink s path = .ok text) :
    h.l2sEntry path = .ok () ∧ s path = some (.link text) ∧ text.length < pathMax - 1 := by
  rw [L2sHost.myReadlink] at hread
  split at hread
  · cases hread
  · cases hread
  · rename_i u text' hentry hlink
    split_ifs at hread with hlong
    cases hread
    exact ⟨hentry, hlink, by omega⟩
  · cases hread

theorem Reads.myReadlink (hr : Reads h s path intermediate) :
    h.myReadlink s path = .ok intermediate := by
  have hshort := hr.short
  exact L2sHost.myReadlink_link hr.entry hr.link (by omega)

/-- What the functions find behind a name: a family, or one whose data is gone. -/
theorem Tidy.exists_reads (ht : Tidy h s) (hpath : isL2sInternalPath path = false)
    (hread : h.myReadlink s path = .ok intermediate) (hin : isL2sInternalPath intermediate = true)
    {final : CStr} (hfinal : h.myReadlink s intermediate = .ok final) :
    Reads h s path intermediate ∧ ∃ n, final = finalOf intermediate n ∧ n ≤ maxLinkCount ∧
      s intermediate = some (.link (finalOf intermediate n)) ∧
      (s (finalOf intermediate n) = none ∨ ∃ c, IsFamily s intermediate n c) := by
  obtain ⟨hentry, hlink, -⟩ := exists_of_myReadlink hread
  obtain ⟨hentry', hlink', hlt⟩ := exists_of_myReadlink hfinal
  have habs := ht.text_absolute path _ hpath hlink hin
  have hnamed : Named h s intermediate :=
    ⟨hin, path, intermediate, hpath, hlink, follow_internal hin habs path⟩
  obtain ⟨n, -, hle, hto, hdata⟩ := (ht.family _ hnamed).resolve_left (by simp [hlink'])
  have heq := link_unique hlink' hto
  refine ⟨⟨hlink, hin, ?_, hentry, hentry'⟩, n, heq, hle, hto,
    hdata.imp id fun hfile => hfile.imp fun c hc => ⟨hle, hto, hc⟩⟩
  rw [heq, length_finalOf] at hlt
  exact hlt

/-- The last link of a family: what each call leaves. -/
theorem removeFamily_eq (hi : IsIntermediate h intermediate) (hf : IsFamily s intermediate n c) :
    h.removeFamily s intermediate (finalOf intermediate n) =
      match h.refuses (.unlink intermediate), h.refuses (.unlink (finalOf intermediate n)) with
      | some e, _ => (s, .error e)
      | none, some e => (Function.update s intermediate none, .error e)
      | none, none => (Function.update (Function.update s intermediate none)
          (finalOf intermediate n) none, .ok ()) := by
  have hentry := hi.entry_finalOf n
  have hdata : Function.update s intermediate none (finalOf intermediate n) = some (.file c) := by
    rw [Function.update_of_ne (finalOf_ne intermediate n)]
    exact hf.data
  rw [L2sHost.removeFamily, L2sHost.l2sUnlink_eq hi.entry]
  cases hunlink : h.refuses (.unlink intermediate) with
  | some e => simp only [L2sHost.unlink, hf.linked, hunlink]
  | none =>
    simp only [L2sHost.unlink_ok hf.linked (by simp) hunlink, L2sHost.l2sUnlink_eq hentry]
    cases hfinal : h.refuses (.unlink (finalOf intermediate n)) with
    | some e => simp only [L2sHost.unlink, hdata, hfinal]
    | none => simp only [L2sHost.unlink_ok hdata (by simp) hfinal]

/-- The family behind a name is one. -/
theorem IsFamily.unique {m : ℕ} {d : D} (hf : IsFamily s intermediate n c)
    (hf' : IsFamily s intermediate m d) : n = m ∧ c = d := by
  have hcount := fourDigits_injective hf'.count hf.count
    (finalOf_inj (link_unique hf'.linked hf.linked)).2
  subst hcount
  have hdata := hf.data
  rw [hf'.data, Option.some.injEq, Node.file.injEq] at hdata
  exact ⟨rfl, hdata.symm⟩

/-- A condition on what is behind a name is about the one family there. -/
theorem forall_family_iff {p : CStr → ℕ → D → Prop} (hr : Reads h s path intermediate)
    (hf : IsFamily s intermediate n c) :
    (∀ i m d, Reads h s path i → IsFamily s i m d → p i m d) ↔ p intermediate n c := by
  constructor
  · intro hall
    exact hall intermediate n c hr hf
  · intro hone i m d hr' hf'
    have hsame := link_unique hr.link hr'.link
    subst hsame
    obtain ⟨rfl, rfl⟩ := hf.unique hf'
    exact hone

/-- A name behind which there is no data keeps nothing. -/
theorem decrement_unfounded (ht : Tidy h s) (hpath : isL2sInternalPath path = false)
    (hno : ∀ intermediate n c, Reads h s path intermediate → ¬ IsFamily s intermediate n c)
    {failed : Prop} : NamesKept h s (h.decrementLinkCount s (.ok path)).1 failed := by
  rw [L2sHost.decrementLinkCount]
  split
  case h_2 => exact namesKept_refl
  cases hread : h.myReadlink s path with
  | error e => exact namesKept_refl
  | ok intermediate =>
  by_cases hin : isL2sInternalPath intermediate = true
  case neg =>
    simp only [hin, Bool.false_eq_true, if_false]
    exact namesKept_refl
  simp only [hin, if_true]
  cases hfinal : h.myReadlink s intermediate with
  | error e => exact namesKept_refl
  | ok final =>
  obtain ⟨hr, n, rfl, hle, hlink, hdata⟩ := ht.exists_reads hpath hread hin hfinal
  have hi := hr.isIntermediate ht hpath
  have hgone : s (finalOf intermediate n) = none :=
    hdata.resolve_right fun hfamily => hfamily.elim fun c => hno intermediate n c hr
  have hentry := hi.entry_finalOf
  simp only [parse_finalOf (isPrefixOf_of_isL2sInternalPath hin) hle, withLinkCount_finalOf]
  split_ifs
  · simp only [L2sHost.recount, L2sHost.l2sRename_eq (hentry _) (hentry _), L2sHost.rename, hgone]
    exact namesKept_refl
  rw [L2sHost.removeFamily, L2sHost.l2sUnlink_eq hi.entry]
  cases hunlink : h.refuses (.unlink intermediate) with
  | some e =>
    simp only [L2sHost.unlink, hlink, hunlink]
    exact namesKept_refl
  | none =>
    have hgone' : h.unlink (Function.update s intermediate none) (finalOf intermediate n) =
        .error .enoent := by
      simp only [L2sHost.unlink, Function.update_of_ne (finalOf_ne intermediate n), hgone]
    simp only [L2sHost.unlink_ok hlink (by simp) hunlink, L2sHost.l2sUnlink_eq (hentry n), hgone']
    have hvisible : ∀ q, isL2sInternalPath q = false →
        Function.update s intermediate none q = s q :=
      fun q hq => Function.update_of_ne (ne_of_visible hq hin) ..
    refine .of_visible ((readable_iff ht (hr.named ht hpath) ?_ hvisible).2 fun d hd => ?_) hvisible
    · intro x _ hne _
      exact Function.update_of_ne hne ..
    · exact absurd hd (Dangling.not_holds (.inr ⟨n, hlink, hgone⟩) hin hi.absolute)

/-- **When a failing call of `decrement_link_count` harms no name.** -/
theorem decrement_keeps_iff (ht : Tidy h s) (hpath : isL2sInternalPath path = false) :
    DecrementKeeps h s path ↔ DecrementSpares h s path := by
  by_cases hno : ∀ intermediate n c, Reads h s path intermediate → ¬ IsFamily s intermediate n c
  · refine iff_of_true (fun _ => decrement_unfounded ht hpath hno) fun intermediate n c hr hf => ?_
    exact absurd hf (hno intermediate n c hr)
  push Not at hno
  obtain ⟨intermediate, n, c, hr, hf⟩ := hno
  have hnamed := hr.named ht hpath
  have hi := hr.isIntermediate ht hpath
  have hpos := hf.pos hnamed ht
  rw [DecrementSpares, forall_family_iff hr hf, DecrementKeeps, decrement_eq hr hf.linked hf.count]
  by_cases hone : n = 1
  · subst hone
    have hvisible : ∀ q, isL2sInternalPath q = false →
        Function.update s intermediate none q = s q :=
      fun q hq => Function.update_of_ne (ne_of_visible hq hr.isInternal) ..
    rw [if_neg (by decide), if_pos rfl, removeFamily_eq hi hf]
    cases hunlink : h.refuses (.unlink intermediate) with
    | some e => exact iff_of_true (fun _ => namesKept_refl) (.inl (Option.some_ne_none e))
    | none =>
      cases hfinal : h.refuses (.unlink (finalOf intermediate 1)) with
      | none =>
        refine iff_of_true (fun hlast => absurd ⟨rfl, intermediate, c, hr, hf⟩ hlast) (.inr rfl)
      | some e =>
        refine iff_of_false (fun hkeep => ?_) (by simp)
        have hread := (hkeep (by simp)).readable
        rw [hf.readable_iff ht hnamed (fun x _ hne _ => Function.update_of_ne hne ..)
          hvisible] at hread
        exact Dangling.not_holds (.inl (Function.update_self ..)) hr.isInternal hi.absolute hread
  · have hlast : ¬ LastLink h s path := by
      rintro ⟨other, d, hr', hf'⟩
      have hsame := link_unique hr.link hr'.link
      subst hsame
      exact hone (hf.unique hf').1
    have hle : n - 1 ≤ maxLinkCount := (Nat.sub_le n 1).trans hf.count
    have hspec := recount_spec hi hf hle (by omega)
    rw [if_pos (by omega), if_neg hone, ← hspec.readable_iff ht hnamed hf]
    simp only [hlast, and_false, not_false_eq_true, true_implies]
    constructor
    · intro hkept
      exact hkept.readable
    · intro hread
      exact .of_visible hread fun q hq => hspec.only.visible hr.isInternal hq

end

/-! ### One link more -/

section

variable (h : L2sHost D) (undo : Refusals) (s : HostStore D)

/-- **What `move_and_symlink_path` must leave.** -/
def MoveKeeps (src dest : Except Errno CStr) : Prop :=
  NamesKept h s (h.moveAndSymlinkPathThen undo s src dest).1
    (∃ e, (h.moveAndSymlinkPathThen undo s src dest).2 = .failed e)

/-- The link at the destination can be made, once the data is at its new place. -/
def DestMade (intermediate : CStr) (n : ℕ) (dest : Except Errno CStr) : Prop :=
  ∃ d, dest = .ok d ∧ d ≠ intermediate ∧ d ≠ finalOf intermediate n ∧ s d = none ∧
    h.refuses (.symlink intermediate d) = none

/-- One more link of a family does no harm: nothing has moved, or everything follows,
and so it is when the link is taken back. -/
def NextSpares (intermediate : CStr) (n : ℕ) (dest : Except Errno CStr) : Prop :=
  ¬ h.Renames s (finalOf intermediate n) (finalOf intermediate (n + 1)) ∨
    h.Relinks intermediate (n + 1) ∧
      (DestMade h (Function.update s (finalOf intermediate n) none) intermediate (n + 1) dest ∨
        undo.refuses (.rename (finalOf intermediate (n + 1)) (finalOf intermediate n)) ≠ none ∨
        (h.refusing undo).Relinks intermediate n)

end

section

variable {h : L2sHost D} {undo : Refusals} {s s' : HostStore D} {original intermediate : CStr}
  {n : ℕ} {c : D} {dest : Except Errno CStr}

theorem Renames_iff_of_gone {m : ℕ} (hgone : s' (finalOf intermediate n) = none) :
    h.Renames s' (finalOf intermediate m) (finalOf intermediate n) ↔
      h.refuses (.rename (finalOf intermediate m) (finalOf intermediate n)) = none := by
  rw [L2sHost.Renames, hgone, and_iff_right (by simp)]

/-- The link at the destination is made, or the answer is an error after the undo. -/
theorem destLinkThen_cases (h : L2sHost D) (undo : Refusals) (s : HostStore D)
    (original intermediate : CStr) (dest : Except Errno CStr) :
    (∃ d, dest = .ok d ∧ s d = none ∧ h.refuses (.symlink intermediate d) = none ∧
      h.destLinkThen undo s original intermediate dest =
        (Function.update s d (some (.link intermediate)), .done)) ∨
    (¬ ∃ d, dest = .ok d ∧ s d = none ∧ h.refuses (.symlink intermediate d) = none) ∧
      ∃ e, h.destLinkThen undo s original intermediate dest =
        (((h.refusing undo).decrementLinkCount s (.ok original)).1, .failed e) := by
  cases dest with
  | error e =>
    refine .inr ⟨?_, e, rfl⟩
    rintro ⟨d, hd, -⟩
    cases hd
  | ok d =>
    by_cases hfree : s d = none
    · cases hrefuse : h.refuses (.symlink intermediate d) with
      | none =>
        refine .inl ⟨d, rfl, hfree, hrefuse, ?_⟩
        simp only [L2sHost.destLinkThen, L2sHost.symlink_free hfree hrefuse]
      | some e =>
        refine .inr ⟨fun ⟨d', hd', _, hok⟩ => ?_, e, ?_⟩
        · rw [Except.ok.injEq] at hd'
          rw [← hd', hrefuse] at hok
          cases hok
        · simp only [L2sHost.destLinkThen, L2sHost.symlink_refused hfree hrefuse]
    · refine .inr ⟨fun ⟨d', hd', hnone, _⟩ => ?_, .eexist, ?_⟩
      · rw [Except.ok.injEq] at hd'
        exact hfree (hd' ▸ hnone)
      · simp only [L2sHost.destLinkThen, L2sHost.symlink_taken hfree]

/-- The destination of a link, once the data is at its new place. -/
theorem destMade_iff {base : HostStore D} {m : ℕ} (hi : s' intermediate ≠ none)
    (hm : s' (finalOf intermediate m) ≠ none)
    (hsame : ∀ d, d ≠ intermediate → d ≠ finalOf intermediate m → (s' d = none ↔ base d = none)) :
    (∃ d, dest = .ok d ∧ s' d = none ∧ h.refuses (.symlink intermediate d) = none) ↔
      DestMade h base intermediate m dest := by
  constructor
  · rintro ⟨d, hd, hfree, hok⟩
    have hdi : d ≠ intermediate := by
      rintro rfl
      exact hi hfree
    have hdm : d ≠ finalOf intermediate m := by
      rintro rfl
      exact hm hfree
    exact ⟨d, hd, hdi, hdm, (hsame d hdi hdm).1 hfree, hok⟩
  · rintro ⟨d, hd, hdi, hdm, hfree, hok⟩
    exact ⟨d, hd, (hsame d hdi hdm).2 hfree, hok⟩

/-- What the functions find behind a name stays, where the name does. -/
theorem Reads.of_eq (hr : Reads h s original intermediate) (hsame : s' original = s original) :
    Reads h s' original intermediate :=
  ⟨hsame.trans hr.link, hr.isInternal, hr.short, hr.entry, hr.entry_intermediate⟩

theorem Reads.refusing (hr : Reads h s original intermediate) :
    Reads (h.refusing undo) s original intermediate :=
  ⟨hr.link, hr.isInternal, hr.short, hr.entry, hr.entry_intermediate⟩

theorem IsIntermediate.refusing (hi : IsIntermediate h intermediate) :
    IsIntermediate (h.refusing undo) intermediate :=
  ⟨hi.isInternal, hi.absolute, hi.entry⟩

variable (undo dest) in
/-- The link at the destination, and its undo: a link less, on the host of that time. -/
theorem destLink_keeps_iff (hr : Reads (h.refusing undo) s' original intermediate)
    (hi : IsIntermediate h intermediate) (hf : IsFamily s' intermediate (n + 1) c) (hn : 0 < n)
    (hunmade : ∀ q, isL2sInternalPath q = false → s q = none → s' q = none)
    (hread : ∀ s₂, OnlyRecounted intermediate (n + 1) n s' s₂ →
      (Readable h s s₂ ↔ Holds h.follow s₂ intermediate c)) :
    NamesKept h s (h.destLinkThen undo s' original intermediate dest).1
        (∃ e, (h.destLinkThen undo s' original intermediate dest).2 = .failed e) ↔
      (∃ d, dest = .ok d ∧ s' d = none ∧ h.refuses (.symlink intermediate d) = none) ∨
        ¬ (h.refusing undo).Renames s' (finalOf intermediate (n + 1)) (finalOf intermediate n) ∨
        (h.refusing undo).Relinks intermediate n := by
  cases destLinkThen_cases h undo s' original intermediate dest with
  | inl hmade =>
    obtain ⟨d, hd, hfree, hok, hanswer⟩ := hmade
    have hkept := (hread s' fun _ _ _ _ => rfl).2 (hf.holds hi.isInternal hi.absolute)
    rw [hanswer]
    refine iff_of_true ⟨fun q hq c hc => (hkept q hq c hc).update_none hfree _, ?_⟩
      (.inl ⟨d, hd, hfree, hok⟩)
    rintro ⟨e, he⟩
    cases he
  | inr hfailed =>
    obtain ⟨hnot, e, hanswer⟩ := hfailed
    have hle : n ≤ maxLinkCount := (Nat.le_succ n).trans hf.count
    have hspec := recount_spec (h := h.refusing undo) hi.refusing hf hle (by omega)
    rw [hanswer, or_iff_right hnot, decrement_eq hr hf.linked hf.count, Nat.add_sub_cancel,
      if_pos hn, ← hspec.holds_iff]
    constructor
    · intro hkept
      exact (hread _ hspec.only).1 hkept.readable
    · intro hheld
      exact ⟨(hread _ hspec.only).2 hheld, fun _ q hq hnone =>
        (hspec.only.visible hi.isInternal hq).trans (hunmade q hq hnone)⟩

variable (undo dest) in
/-- **When a failing call of one more link of a family harms no name.** -/
theorem nextLink_keeps_iff (ht : Tidy h s) (hpath : isL2sInternalPath original = false)
    (hr : Reads h s original intermediate) (hf : IsFamily s intermediate n c)
    (hn : n < maxLinkCount) :
    NamesKept h s (h.nextLinkThen undo s original intermediate dest).1
        (∃ e, (h.nextLinkThen undo s original intermediate dest).2 = .failed e) ↔
      NextSpares h undo s intermediate n dest := by
  have hnamed := hr.named ht hpath
  have hi := hr.isIntermediate ht hpath
  have hfinal : (finalOf intermediate n).length < pathMax - 1 := by
    rw [length_finalOf]
    exact hr.short
  have hle : n + 1 ≤ maxLinkCount := hn
  have hspec := recount_spec hi hf hle (by omega)
  have hvisible : ∀ q, isL2sInternalPath q = false → _ = s q :=
    fun q hq => hspec.only.visible hi.isInternal hq
  have hread := hspec.readable_iff ht hnamed hf
  simp only [L2sHost.nextLinkThen, L2sHost.myReadlink_link hr.entry_intermediate hf.linked hfinal,
    parse_finalOf (isPrefixOf_of_isL2sInternalPath hr.isInternal) hf.count, withLinkCount_finalOf,
    if_neg (Nat.not_lt.2 hle)]
  rw [NextSpares]
  generalize h.recount s intermediate (finalOf intermediate n) (finalOf intermediate (n + 1)) = r
    at hspec hvisible hread ⊢
  obtain ⟨s₁, answer⟩ := r
  cases answer with
  | error e =>
    have hnot := mt hspec.done_iff.2 (by simp)
    constructor
    · intro hkept
      refine .inl fun hmove => hnot ⟨hmove, ?_⟩
      exact (hread.1 hkept.readable).resolve_left (not_not_intro hmove)
    · intro hor
      exact .of_visible (hread.2 (hor.imp id And.left)) hvisible
  | ok u =>
    obtain ⟨hmove, hlinks⟩ := hspec.done_iff.1 rfl
    obtain ⟨hf₁, hgone⟩ := hspec.done rfl
    have hrenames := Renames_iff_of_gone (h := h.refusing undo) (m := n + 1) hgone
    simp only [hmove, hlinks, not_true_eq_false, false_or, true_and]
    refine (destLink_keeps_iff undo dest (hr.of_eq (hvisible original hpath)).refusing hi hf₁
      (hf.pos hnamed ht) (fun q hq hnone => (hvisible q hq).trans hnone) fun s₂ hsame => ?_).trans
      (or_congr (destMade_iff ?_ ?_ fun d hdi hdm => ?_) (or_congr (not_congr hrenames) Iff.rfl))
    · exact hf.readable_iff ht hnamed (hspec.only.changedIn.trans hsame.changedIn) fun q hq =>
        (hsame.visible hi.isInternal hq).trans (hvisible q hq)
    · exact Option.ne_none_iff_exists'.2 ⟨_, hf₁.linked⟩
    · exact Option.ne_none_iff_exists'.2 ⟨_, hf₁.data⟩
    · by_cases hdn : d = finalOf intermediate n
      · rw [hdn, hgone, Function.update_self]
      · rw [Function.update_of_ne hdn, hspec.only d hdi hdn hdm]

end

/-! ### The first link -/

section

variable (h : L2sHost D) (undo : Refusals) (s : HostStore D)

/-- The names of a new family are free, and no visible link leads to them. -/
structure Fresh (intermediate : CStr) : Prop where
  isInternal : isL2sInternalPath intermediate = true
  free : s intermediate = none
  unnamed : ∀ n, ¬ Named h s (finalOf intermediate n)
  short : intermediate.length + 5 < pathMax - 1

/-- The first link of a file does no harm: nothing has moved, or everything follows,
and so it is when the link is taken back. -/
def FirstSpares (original intermediate : CStr) (dest : Except Errno CStr) : Prop :=
  ¬ h.Renames s original (firstFinal intermediate) ∨
    Fresh h s intermediate ∧
      h.refuses (.symlink (finalOf intermediate 2) intermediate) = none ∧
      h.refuses (.symlink intermediate original) = none ∧
      (DestMade h s intermediate 2 dest ∨
        ¬ (h.refusing undo).Renames s (finalOf intermediate 2) (finalOf intermediate 1) ∨
        (h.refusing undo).Relinks intermediate 1)

/-- The source has become a link of a new family. -/
structure FamilyMade (s' : HostStore D) (original intermediate : CStr) (node : Node CStr D) :
    Prop where
  link : s' original = some (.link intermediate)
  linked : s' intermediate = some (.link (finalOf intermediate 2))
  data : s' (finalOf intermediate 2) = some node
  changed : ∀ path, path ≠ original → path ≠ intermediate → path ≠ finalOf intermediate 2 →
    s' path = s path

end

section

variable {h : L2sHost D} {undo : Refusals} {s s' : HostStore D} {original intermediate stem : CStr}
  {c : D} {node : Node CStr D} {dest : Except Errno CStr}

theorem firstFinal_eq_finalOf (hshort : intermediate.length + 5 < pathMax - 1) :
    firstFinal intermediate = finalOf intermediate 2 := by
  rw [firstFinal, List.take_of_length_le]
  · rfl
  · rw [List.length_append]
    have hfive : (str ".0002").length = 5 := rfl
    omega

variable (undo dest) in
/-- The data has not moved. -/
theorem firstLink_unmoved (hp : s original = some (.file c)) (hentry : ∀ p, h.l2sEntry p = .ok ())
    (hbad : ¬ h.Renames s original (firstFinal (h.newIntermediate s stem))) :
    ∃ e, h.firstLinkThen undo s original stem dest = (s, .failed e) := by
  obtain ⟨e, hne, he⟩ := L2sHost.rename_file_error hp hbad
  refine ⟨e, ?_⟩
  simp only [L2sHost.firstLinkThen, L2sHost.l2sRename_eq (hentry _) (hentry _), he, hne, if_false]

/-- What a first link needs: free names that the host finds. -/
structure FirstNames (h : L2sHost D) (s : HostStore D) (original intermediate : CStr) : Prop where
  free : s intermediate = none
  original_ne : original ≠ finalOf intermediate 2
  short : intermediate.length + 5 < pathMax - 1
  entry : h.l2sEntry intermediate = .ok ()
  entry_original : h.l2sEntry original = .ok ()
  entry_final : h.l2sEntry (finalOf intermediate 2) = .ok ()
  moves : h.Renames s original (finalOf intermediate 2)

variable (undo dest) in
/-- The source has moved: the links follow, or it is lost. -/
theorem firstLink_moved (hn : FirstNames h s original intermediate)
    (hnew : h.newIntermediate s stem = intermediate) (hp : s original = some node)
    (hnode : node ≠ .directory) :
    (h.refuses (.symlink (finalOf intermediate 2) intermediate) = none ∧
        h.refuses (.symlink intermediate original) = none ∧
        ∃ s', FamilyMade s s' original intermediate node ∧
          h.firstLinkThen undo s original stem dest =
            h.destLinkThen undo s' original intermediate dest) ∨
      ¬ (h.refuses (.symlink (finalOf intermediate 2) intermediate) = none ∧
          h.refuses (.symlink intermediate original) = none) ∧
        ∃ s' e, h.firstLinkThen undo s original stem dest = (s', .failed e) ∧
          s' original = none := by
  have hof := hn.original_ne
  have hfi := finalOf_ne intermediate 2
  have hoi : original ≠ intermediate := by
    rintro rfl
    rw [hn.free] at hp
    cases hp
  have hfree : Function.update (Function.update s original none) (finalOf intermediate 2)
      (some node) intermediate = none := by
    rw [Function.update_of_ne hfi.symm, Function.update_of_ne hoi.symm, hn.free]
  have hgone : Function.update (Function.update (Function.update s original none)
      (finalOf intermediate 2) (some node)) intermediate
      (some (.link (finalOf intermediate 2))) original = none := by
    rw [Function.update_of_ne hoi, Function.update_of_ne hof, Function.update_self]
  simp only [L2sHost.firstLinkThen, hnew, firstFinal_eq_finalOf hn.short,
    L2sHost.l2sRename_eq hn.entry_original hn.entry_final,
    L2sHost.rename_node hp hnode hn.moves.1 hn.moves.2 hof,
    L2sHost.makeFamilyThen, L2sHost.l2sSymlink_eq hn.entry]
  cases hfirst : h.refuses (.symlink (finalOf intermediate 2) intermediate) with
  | some e =>
    have hexist : e ≠ .eexist := fun heq => h.symlink_ne_eexist _ _ (heq ▸ hfirst)
    simp only [L2sHost.symlink_refused hfree hfirst, hexist, if_false]
    refine .inr ⟨by simp, _, e, rfl, ?_⟩
    rw [Function.update_of_ne hof, Function.update_self]
  | none =>
    simp only [L2sHost.symlink_free hfree hfirst, L2sHost.originalLinkThen]
    cases hsecond : h.refuses (.symlink intermediate original) with
    | some e =>
      have hexist : e ≠ .eexist := fun heq => h.symlink_ne_eexist _ _ (heq ▸ hsecond)
      simp only [L2sHost.symlink_refused hgone hsecond, hexist, if_false]
      exact .inr ⟨by simp, _, e, rfl, hgone⟩
    | none =>
      simp only [L2sHost.symlink_free hgone hsecond]
      refine .inl ⟨trivial, trivial, _,
        ⟨Function.update_self .., ?_, ?_, fun path ho hi hf => ?_⟩, rfl⟩
      · rw [Function.update_of_ne hoi.symm, Function.update_self]
      · rw [Function.update_of_ne hof.symm, Function.update_of_ne hfi, Function.update_self]
      · rw [Function.update_of_ne ho, Function.update_of_ne hi, Function.update_of_ne hf,
          Function.update_of_ne ho]

theorem FamilyMade.family (hmade : FamilyMade s s' original intermediate (.file c)) :
    IsFamily s' intermediate 2 c :=
  ⟨by decide, hmade.linked, hmade.data⟩

/-- The destination of the first link, before the call. -/
theorem FamilyMade.destMade_iff (hmade : FamilyMade s s' original intermediate node)
    (hp : s original ≠ none) :
    (∃ d, dest = .ok d ∧ s' d = none ∧ h.refuses (.symlink intermediate d) = none) ↔
      DestMade h s intermediate 2 dest := by
  refine Link2symlink.destMade_iff (by simp [hmade.linked]) (by simp [hmade.data])
    fun d hdi hdf => ?_
  by_cases hdo : d = original
  · rw [hdo, hmade.link]
    simp [hp]
  · rw [hmade.changed d hdo hdi hdf]

/-- What a new family must keep is the data of its file. -/
theorem Fresh.readable_iff (hfresh : Fresh h s intermediate) (ht : Tidy h s)
    (hp : s original = some (.file c)) (hpath : isL2sInternalPath original = false)
    (hsame : ChangedIn intermediate s s')
    (hvisible : ∀ q, isL2sInternalPath q = false → q ≠ original → s' q = s q) :
    Readable h s s' ↔ Holds h.follow s' original c := by
  rw [readable_iff_of_one ht hfresh.isInternal hpath hsame hvisible hfresh.unnamed
    fun hthere => absurd hfresh.free hthere]
  constructor
  · rintro ⟨hone, -⟩
    exact hone c (.file hp)
  · intro hheld
    refine ⟨fun d hd => (holds_iff_of_file hp).1 hd ▸ hheld, fun q t _ _ _ _ d hd => ?_⟩
    exact absurd hd (not_holds_of_none hfresh.free)

/-- **When a failing call of the first link of a file harms no name**, where its names
are free. -/
theorem firstLink_keeps_iff (ht : Tidy h s) (hpath : isL2sInternalPath original = false)
    (hp : s original = some (.file c)) (hstem : h.stemOfFile original = .ok stem)
    (habs : IsAbsolute original) (hfresh : Fresh h s (h.newIntermediate s stem)) :
    NamesKept h s (h.firstLinkThen undo s original stem dest).1
        (∃ e, (h.firstLinkThen undo s original stem dest).2 = .failed e) ↔
      FirstSpares h undo s original (h.newIntermediate s stem) dest := by
  have hentry := h.l2sEntry_of_stemOfFile hstem
  have hiabs : IsAbsolute (h.newIntermediate s stem) := by
    obtain ⟨n, -, -, heq, -⟩ := L2sHost.searchIntermediate_spec h s stem (maxLinkSuffix - 2) 1
    rw [L2sHost.newIntermediate, heq]
    exact (L2sHost.isStem_of_stemOfFile habs hstem).numbered_absolute n
  rw [FirstSpares]
  by_cases hmove : h.Renames s original (firstFinal (h.newIntermediate s stem))
  case neg =>
    obtain ⟨e, he⟩ := firstLink_unmoved undo dest hp hentry hmove
    rw [he]
    exact iff_of_true namesKept_refl (.inl hmove)
  generalize hnew : h.newIntermediate s stem = intermediate at *
  have hi : IsIntermediate h intermediate := ⟨hfresh.isInternal, hiabs, hentry _⟩
  have hof := ne_of_visible hpath (isL2sInternalPath_finalOf hi.isInternal 2)
  have hnames : FirstNames h s original intermediate :=
    ⟨hfresh.free, hof, hfresh.short, hentry _, hentry _, hentry _,
      firstFinal_eq_finalOf hfresh.short ▸ hmove⟩
  obtain ⟨hfirst, hsecond, s', hmade, he⟩ | ⟨hlost, s', e, he, hgone⟩ :=
    firstLink_moved undo dest hnames hnew hp (by simp)
  case inr =>
    rw [he]
    refine iff_of_false (fun hkept => ?_) ?_
    · exact not_holds_of_none hgone (hkept.readable original (by simp [hpath]) c (.file hp))
    · rintro (hno | ⟨-, hfirst, hsecond, -⟩)
      · exact hno hmove
      · exact hlost ⟨hfirst, hsecond⟩
  have hvisible : ∀ q, isL2sInternalPath q = false → q ≠ original → s' q = s q :=
    fun q hq hqo => hmade.changed q hqo (ne_of_visible hq hi.isInternal)
      (ne_of_visible hq (isL2sInternalPath_finalOf hi.isInternal 2))
  have hchanged : ChangedIn intermediate s s' := fun path hin hne hfinal =>
    hmade.changed path (ne_of_visible hpath hin).symm hne (hfinal 2)
  have hreads : Reads (h.refusing undo) s' original intermediate :=
    ⟨hmade.link, hi.isInternal, hfresh.short, hentry _, hi.entry⟩
  have hone := isL2sInternalPath_finalOf hi.isInternal 1
  rw [he, destLink_keeps_iff undo dest hreads hi hmade.family one_pos ?_ ?_,
    hmade.destMade_iff (by simp [hp]), L2sHost.Renames,
    hmade.changed _ (ne_of_visible hpath hone).symm (finalOf_ne _ 1)
      (finalOf_ne_finalOf _ (by decide) (by decide) (by decide))]
  · simp only [hmove, hfresh, hfirst, hsecond, not_true_eq_false, false_or, true_and]
    exact Iff.rfl
  · intro q hq hnone
    rw [hvisible q hq ?_, hnone]
    rintro rfl
    rw [hp] at hnone
    cases hnone
  · intro s₂ hsame
    rw [hfresh.readable_iff ht hp hpath (hchanged.trans hsame.changedIn) fun q hq hqo =>
      (hsame.visible hi.isInternal hq).trans (hvisible q hq hqo),
      holds_iff_of_link ((hsame.visible hi.isInternal hpath).trans hmade.link),
      follow_internal hi.isInternal hi.absolute]

end

/-! ### Every source -/

/-- A link that is not to a family. -/
def PlainLink (text : CStr) : Prop :=
  isL2sInternalPath text = false ∧ l2sPrefix.isPrefixOf (getFilename text) = false

section

variable (h : L2sHost D) (undo : Refusals) (s : HostStore D) (original : CStr)

/-- A link of the guest's own moves to a new name, and every link of the new names is
made: what it leads to, they lead to from its name. -/
structure PlainSpares (intermediate text : CStr) (dest : Except Errno CStr) : Prop where
  names : FirstNames h s original intermediate
  final_free : s (finalOf intermediate 2) = none
  linked : h.refuses (.symlink (finalOf intermediate 2) intermediate) = none
  original_linked : h.refuses (.symlink intermediate original) = none
  dest : DestMade h s intermediate 2 dest
  /-- A link that dangles keeps nothing. -/
  follows : (∃ c, Holds h.follow s original c) →
    h.follow original intermediate = intermediate ∧
      h.follow intermediate (finalOf intermediate 2) = finalOf intermediate 2 ∧
      h.follow (finalOf intermediate 2) text = h.follow original text

/-- The calls of `move_and_symlink_path` that fail do no harm. -/
def MoveSpares (dest : Except Errno CStr) : Prop :=
  dest.toOption.any isGitOdbLinkDest = true ∨ h.RawDirectoryTooLong ∨
    (∀ intermediate n c, Reads h s original intermediate → IsFamily s intermediate n c →
      n < maxLinkCount → NextSpares h undo s intermediate n dest) ∧
    (∀ stem c, s original = some (.file c) → h.stemOfFile original = .ok stem →
      FirstSpares h undo s original (h.newIntermediate s stem) dest) ∧
    ∀ text, h.myReadlink s original = .ok text → PlainLink text →
      (∃ e, h.l2sRename s original (firstFinal (h.newIntermediate s text)) = .error e) ∨
        PlainSpares h s original (h.newIntermediate s text) text dest

/-- The names of a new family are free, and the source is no link of the guest's own. -/
def NamesFree : Prop :=
  (∀ stem c, s original = some (.file c) → h.stemOfFile original = .ok stem →
    Fresh h s (h.newIntermediate s stem)) ∧
  ∀ text, h.myReadlink s original = .ok text → ¬ PlainLink text

end

section

variable {h : L2sHost D} {undo : Refusals} {s : HostStore D} {original intermediate text : CStr}
  {dest : Except Errno CStr}

/-- For a source that is no link, the condition is about the first link. -/
theorem moveSpares_of_not_link (hnot : ∀ text, h.myReadlink s original ≠ .ok text)
    (hfirst : ∀ stem c, s original = some (.file c) → h.stemOfFile original = .ok stem →
      FirstSpares h undo s original (h.newIntermediate s stem) dest) :
    MoveSpares h undo s original dest :=
  .inr (.inr ⟨fun intermediate _ _ hr => absurd hr.myReadlink (hnot intermediate), hfirst,
    fun text htext => absurd htext (hnot text)⟩)

variable (undo dest) in
/-- A link of a family whose data is not found stays what it is. -/
theorem nextLink_unmoved (ht : Tidy h s) (hpath : isL2sInternalPath original = false)
    (hread : h.myReadlink s original = .ok intermediate)
    (hin : isL2sInternalPath intermediate = true)
    (hno : Reads h s original intermediate → ∀ n c, IsFamily s intermediate n c →
      ¬ n < maxLinkCount) :
    ∃ e, h.nextLinkThen undo s original intermediate dest = (s, .failed e) := by
  rw [L2sHost.nextLinkThen]
  cases hfinal : h.myReadlink s intermediate with
  | error e => exact ⟨e, rfl⟩
  | ok final =>
  obtain ⟨hr, n, rfl, hle, hlink, hdata⟩ := ht.exists_reads hpath hread hin hfinal
  simp only [parse_finalOf (isPrefixOf_of_isL2sInternalPath hin) hle]
  by_cases hfull : maxLinkCount < n + 1
  · exact ⟨.emlink, if_pos hfull⟩
  have hgone : s (finalOf intermediate n) = none :=
    hdata.resolve_right fun hfamily => hfamily.elim fun c hc => hno hr n c hc (by omega)
  have hentry := (hr.isIntermediate ht hpath).entry_finalOf
  refine ⟨.enoent, ?_⟩
  simp only [if_neg hfull, withLinkCount_finalOf, L2sHost.recount,
    L2sHost.l2sRename_eq (hentry _) (hentry _), L2sHost.rename, hgone]

/-- A link of the guest's own that is not moved takes no name away. -/
theorem plainLink_unmoved {e : Errno}
    (he : h.l2sRename s original (firstFinal (h.newIntermediate s text)) = .error e) :
    NamesKept h s (h.firstLinkThen undo s original text dest).1
      (∃ e, (h.firstLinkThen undo s original text dest).2 = .failed e) := by
  simp only [L2sHost.firstLinkThen, he]
  by_cases hgone : e = .enoent
  case neg =>
    simp only [hgone, if_false]
    exact namesKept_refl
  simp only [hgone, if_true]
  split
  case h_2 => exact namesKept_refl
  rename_i d _ _
  by_cases hfree : s d = none
  · cases hrefuse : h.refuses (.symlink (h.newIntermediate s text) d) with
    | some e =>
      simp only [L2sHost.symlink_refused hfree hrefuse]
      exact namesKept_refl
    | none =>
      simp only [L2sHost.symlink_free hfree hrefuse]
      exact ⟨fun q _ x hx => hx.update_none hfree _, by simp⟩
  · simp only [L2sHost.symlink_taken hfree]
    exact namesKept_refl

/-- A link of the guest's own that moves is followed from its name. -/
theorem PlainSpares.keeps (hs : PlainSpares h s original intermediate text dest)
    (hnew : h.newIntermediate s text = intermediate) (hlink : s original = some (.link text)) :
    NamesKept h s (h.firstLinkThen undo s original text dest).1
      (∃ e, (h.firstLinkThen undo s original text dest).2 = .failed e) := by
  obtain ⟨-, -, s', hmade, he⟩ | ⟨hlost, -⟩ :=
    firstLink_moved undo dest hs.names hnew hlink (by simp)
  case inr => exact absurd ⟨hs.linked, hs.original_linked⟩ hlost
  obtain ⟨d, hd, hfree, hok, hanswer⟩ | ⟨hnot, -⟩ :=
    destLinkThen_cases h undo s' original intermediate dest
  case inr => exact absurd ((hmade.destMade_iff (by simp [hlink])).2 hs.dest) hnot
  rw [he, hanswer]
  have hrest : ∀ q, q ≠ original → s q ≠ none → s' q = s q := by
    intro q hqo hq
    refine hmade.changed q hqo ?_ ?_
    · rintro rfl
      exact hq hs.names.free
    · rintro rfl
      exact hq hs.final_free
  suffices hkept : ∀ q x, Holds h.follow s q x → Holds h.follow s' q x from
    ⟨fun q _ x hx => (hkept q x hx).update_none hfree _, by simp⟩
  intro q x hx
  induction hx with
  | @file q x hq =>
    refine .file ((hrest q ?_ (by simp [hq])).trans hq)
    rintro rfl
    rw [hlink] at hq
    cases hq
  | @link q t x hq hx ih =>
    by_cases hqo : q = original
    · subst hqo
      have ht := link_unique hlink hq
      subst ht
      obtain ⟨horiginal, hinter, htext⟩ := hs.follows ⟨x, .link hq hx⟩
      rw [holds_iff_of_link hmade.link, horiginal, holds_iff_of_link hmade.linked, hinter,
        holds_iff_of_link hmade.data, htext]
      exact ih
    · exact .link ((hrest q hqo (by simp [hq])).trans hq) ih

variable (undo) in
/-- A source that is a link. -/
theorem moveLink_keeps (ht : Tidy h s) (hpath : isL2sInternalPath original = false)
    (hodb : ¬ dest.toOption.any isGitOdbLinkDest = true) (hraw : ¬ h.RawDirectoryTooLong)
    (hread : h.myReadlink s original = .ok text) :
    (MoveSpares h undo s original dest → MoveKeeps h undo s (.ok original) dest) ∧
      (¬ PlainLink text → MoveKeeps h undo s (.ok original) dest →
        MoveSpares h undo s original dest) := by
  obtain ⟨hentry, hlink, hlt⟩ := exists_of_myReadlink hread
  rw [MoveSpares, MoveKeeps, L2sHost.moveAndSymlinkPathThen]
  simp only [hodb, hraw, if_false, Bool.false_eq_true, false_or,
    L2sHost.l2sLstat_some hentry hlink, hread]
  have hnofile : ∀ stem c, s original = some (.file c) → h.stemOfFile original = .ok stem →
      FirstSpares h undo s original (h.newIntermediate s stem) dest := by
    intro stem c hc
    rw [hlink] at hc
    cases hc
  by_cases hin : isL2sInternalPath text = true
  · have hplain : ∀ t, Except.ok (ε := Errno) text = .ok t → PlainLink t →
        (∃ e, h.l2sRename s original (firstFinal (h.newIntermediate s t)) = .error e) ∨
          PlainSpares h s original (h.newIntermediate s t) t dest := by
      intro t heq hplain
      rw [Except.ok.injEq] at heq
      rw [← heq, PlainLink, hin] at hplain
      cases hplain.1
    simp only [hin, if_true]
    by_cases hno : Reads h s original text → ∀ n c, IsFamily s text n c → ¬ n < maxLinkCount
    · obtain ⟨e, he⟩ := nextLink_unmoved undo dest ht hpath hread hin hno
      rw [he]
      refine ⟨fun _ => namesKept_refl, fun _ _ => ⟨fun i n c hr hf hn => ?_, hnofile, hplain⟩⟩
      have hi := link_unique hr.link hlink
      subst hi
      exact absurd hn (hno hr n c hf)
    · push Not at hno
      obtain ⟨hr, n, c, hf, hn⟩ := hno
      have hiff := nextLink_keeps_iff undo dest ht hpath hr hf hn
      refine ⟨fun hall => hiff.2 (hall.1 text n c hr hf hn), fun _ hkept => ⟨?_, hnofile, hplain⟩⟩
      exact (forall_family_iff hr hf).2 fun _ => hiff.1 hkept
  · rw [Bool.not_eq_true] at hin
    simp only [hin, Bool.false_eq_true, if_false]
    have hnoreads : ∀ i n c, Reads h s original i → IsFamily s i n c → n < maxLinkCount →
        NextSpares h undo s i n dest := by
      intro i n c hr
      rw [link_unique hlink hr.link, hr.isInternal] at hin
      cases hin
    cases hbegin : l2sPrefix.isPrefixOf (getFilename text) with
    | true =>
      simp only [if_true]
      refine ⟨fun _ => namesKept_refl, fun _ _ => ⟨hnoreads, hnofile, fun t heq hplain => ?_⟩⟩
      rw [Except.ok.injEq] at heq
      rw [← heq, PlainLink, hbegin] at hplain
      cases hplain.2
    | false =>
      refine ⟨fun hall => ?_, fun hnot => absurd ⟨hin, hbegin⟩ hnot⟩
      simp only [Bool.false_eq_true, if_false]
      obtain ⟨e, he⟩ | hspares := hall.2.2 text rfl ⟨hin, hbegin⟩
      · exact plainLink_unmoved he
      · exact hspares.keeps rfl hlink

/-- **When a failing call of `move_and_symlink_path` harms no name.**  The condition is
enough, and where the names of a new family are free it is needed. -/
theorem move_keeps (ht : Tidy h s) (hpath : isL2sInternalPath original = false)
    (habs : IsAbsolute original) :
    (MoveSpares h undo s original dest → MoveKeeps h undo s (.ok original) dest) ∧
      (NamesFree h s original → MoveKeeps h undo s (.ok original) dest →
        MoveSpares h undo s original dest) := by
  by_cases hodb : dest.toOption.any isGitOdbLinkDest = true
  · rw [MoveKeeps, L2sHost.moveAndSymlinkPathThen, if_pos hodb]
    exact ⟨fun _ => namesKept_refl, fun _ _ => .inl hodb⟩
  by_cases hraw : h.RawDirectoryTooLong
  · rw [MoveKeeps, L2sHost.moveAndSymlinkPathThen, if_neg hodb]
    simp only [hraw, if_true]
    exact ⟨fun _ => namesKept_refl, fun _ _ => .inr (.inl hraw)⟩
  by_cases hlink : ∃ text, h.myReadlink s original = .ok text
  · obtain ⟨text, htext⟩ := hlink
    have hkeeps := moveLink_keeps undo ht hpath hodb hraw htext
    exact ⟨hkeeps.1, fun hfree => hkeeps.2 (hfree.2 text htext)⟩
  push Not at hlink
  -- Neither does a source that is no file move anything.
  by_cases hfile : ∃ stem c, s original = some (.file c) ∧ h.stemOfFile original = .ok stem
  · obtain ⟨stem, c, hc, hstem⟩ := hfile
    have hentry := h.l2sEntry_of_stemOfFile hstem
    have hanswer : h.moveAndSymlinkPathThen undo s (.ok original) dest =
        h.firstLinkThen undo s original stem dest := by
      simp only [L2sHost.moveAndSymlinkPathThen, hodb, hraw, if_false,
        L2sHost.l2sLstat_some (hentry original) hc, hstem, Bool.false_eq_true]
    rw [MoveKeeps, hanswer]
    constructor
    · rintro (hyes | hyes | ⟨-, hfirst, -⟩)
      · exact absurd hyes hodb
      · exact absurd hyes hraw
      · have hspares := hfirst stem c hc hstem
        by_cases hfresh : Fresh h s (h.newIntermediate s stem)
        · exact (firstLink_keeps_iff ht hpath hc hstem habs hfresh).2 hspares
        · obtain ⟨e, he⟩ := firstLink_unmoved undo dest hc hentry
            (hspares.resolve_right fun hyes => hfresh hyes.1)
          rw [he]
          exact namesKept_refl
    · intro hfree hkept
      refine moveSpares_of_not_link hlink fun stem' d hd hstem' => ?_
      rw [hstem, Except.ok.injEq] at hstem'
      subst hstem'
      exact (firstLink_keeps_iff ht hpath hc hstem habs (hfree.1 stem c hc hstem)).1 hkept
  · have hanswer : ∃ e, h.moveAndSymlinkPathThen undo s (.ok original) dest = (s, .failed e) := by
      simp only [L2sHost.moveAndSymlinkPathThen, hodb, hraw, if_false, Bool.false_eq_true]
      cases hlstat : h.l2sLstat s original with
      | error e => exact ⟨e, rfl⟩
      | ok node =>
        cases node with
        | directory => exact ⟨.eperm, rfl⟩
        | link text =>
          cases hread : h.myReadlink s original with
          | error e => exact ⟨e, rfl⟩
          | ok text' => exact absurd hread (hlink text')
        | file c =>
          cases hstem : h.stemOfFile original with
          | error e => exact ⟨e, rfl⟩
          | ok stem =>
            refine absurd ⟨stem, c, ?_, hstem⟩ hfile
            rw [L2sHost.l2sLstat, h.l2sEntry_of_stemOfFile hstem] at hlstat
            cases hnode : s original with
            | none => simp [Except.bind, L2sHost.lstat, hnode] at hlstat
            | some node =>
              simp only [Except.bind, L2sHost.lstat, hnode, Except.ok.injEq] at hlstat
              rw [hlstat]
    obtain ⟨e, he⟩ := hanswer
    rw [MoveKeeps, he]
    refine ⟨fun _ => namesKept_refl, fun _ _ => moveSpares_of_not_link hlink ?_⟩
    intro stem c hc hstem
    exact absurd ⟨stem, c, hc, hstem⟩ hfile

end

end NeoProot.Link2symlink
