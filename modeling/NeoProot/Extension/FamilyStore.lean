import NeoProot.Extension.HostFailures

/-!
# Families in the store

The names of a family that the guest sees are links to its intermediate, and the
intermediate is a link to its final file.  A change of the internal names of one
family leaves every name that the guest sees as it was, exactly when the intermediate
still leads to the data: `readable_iff`.

## Main definitions

* `Tidy` — the families that the guest's names lead to are in order.
* `IsFamily` — an intermediate, its number of links and its data.
* `Recounted` — how a new number of links ends.
-/

namespace NeoProot.Link2symlink
open LinkStore

variable {D : Type}

/-- A link that the guest sees leads to this internal name. -/
def Named (h : L2sHost D) (s : HostStore D) (path : CStr) : Prop :=
  isL2sInternalPath path = true ∧
    ∃ q t, isL2sInternalPath q = false ∧ s q = some (.link t) ∧ h.follow q t = path

/-- An intermediate, the number of its links, and its data. -/
structure IsFamily (s : HostStore D) (intermediate : CStr) (n : ℕ) (c : D) : Prop where
  count : n ≤ maxLinkCount
  linked : s intermediate = some (.link (finalOf intermediate n))
  data : s (finalOf intermediate n) = some (.file c)

/-- **The families that the guest's names lead to are in order.** -/
structure Tidy (h : L2sHost D) (s : HostStore D) : Prop where
  /-- The links to a family say where it is on the host. -/
  text_absolute : ∀ q t, isL2sInternalPath q = false → s q = some (.link t) →
    isL2sInternalPath t = true → IsAbsolute t
  /-- They name the backing directory of today. -/
  text_hosted : ∀ q t, isL2sInternalPath q = false → s q = some (.link t) →
    isL2sInternalPath t = true → h.hostName t = t
  absolute : ∀ path, Named h s path → IsAbsolute path
  /-- An intermediate leads to its own final file, if it and the file are there. -/
  family : ∀ path, Named h s path → s path = none ∨
    ∃ n, 1 ≤ n ∧ n ≤ maxLinkCount ∧ s path = some (.link (finalOf path n)) ∧
      (s (finalOf path n) = none ∨ ∃ c, s (finalOf path n) = some (.file c))
  /-- No name of one family is the final file of another. -/
  apart : ∀ path other, Named h s path → Named h s other → ∀ n, other ≠ finalOf path n

/-- An internal name that links can lead to, and that the host finds. -/
structure IsIntermediate (h : L2sHost D) (path : CStr) : Prop where
  isInternal : isL2sInternalPath path = true
  absolute : IsAbsolute path
  entry : h.l2sEntry path = .ok ()

section

variable {h : L2sHost D} {s s' : HostStore D} {intermediate path : CStr} {n m : ℕ} {c d : D}

/-- A name that the guest sees is no internal one. -/
theorem ne_of_visible {q : CStr} (hq : isL2sInternalPath q = false)
    (hi : isL2sInternalPath path = true) : q ≠ path := by
  rintro rfl
  rw [hq] at hi
  cases hi

theorem follow_internal (hi : isL2sInternalPath path = true) (habs : IsAbsolute path) (q : CStr) :
    h.follow q path = path :=
  h.follow_l2s q path habs (isPrefixOf_of_isL2sInternalPath hi)

theorem follow_finalOf (hi : isL2sInternalPath path = true) (habs : IsAbsolute path) (q : CStr)
    (n : ℕ) : h.follow q (finalOf path n) = finalOf path n :=
  follow_internal (isL2sInternalPath_finalOf hi n) (isAbsolute_append habs _) q

theorem l2sEntry_finalOf (hi : isL2sInternalPath path = true) (n : ℕ) :
    h.l2sEntry (finalOf path n) = h.l2sEntry path := by
  have hname : getFilename path ≠ [] := by
    intro hnil
    have hbegin := isPrefixOf_of_isL2sInternalPath hi
    rw [hnil] at hbegin
    exact absurd hbegin (by decide)
  rw [L2sHost.l2sEntry, L2sHost.l2sEntry]
  cases h.getL2sDirectory with
  | none => rfl
  | some directory => simp only [isChildOf_finalOf directory hname]

theorem IsIntermediate.entry_finalOf (hi : IsIntermediate h path) (n : ℕ) :
    h.l2sEntry (finalOf path n) = .ok () :=
  (l2sEntry_finalOf hi.isInternal n).trans hi.entry

/-! ### What an intermediate holds -/

theorem IsFamily.holds (hf : IsFamily s intermediate n c)
    (hi : isL2sInternalPath intermediate = true) (habs : IsAbsolute intermediate) :
    Holds h.follow s intermediate c := by
  refine .link hf.linked ?_
  rw [follow_finalOf hi habs]
  exact .file hf.data

/-- The intermediate is gone, or its final file is. -/
def Dangling (s : HostStore D) (intermediate : CStr) : Prop :=
  s intermediate = none ∨
    ∃ n, s intermediate = some (.link (finalOf intermediate n)) ∧ s (finalOf intermediate n) = none

theorem Dangling.not_holds (hs : Dangling s intermediate)
    (hi : isL2sInternalPath intermediate = true) (habs : IsAbsolute intermediate) :
    ¬ Holds h.follow s intermediate d := by
  intro hd
  cases hs with
  | inl hnone => exact not_holds_of_none hnone hd
  | inr hlink =>
    obtain ⟨n, hlink, hnone⟩ := hlink
    rw [holds_iff_of_link hlink, follow_finalOf hi habs] at hd
    exact not_holds_of_none hnone hd

/-- A named intermediate that holds something is a family. -/
theorem Tidy.isFamily (ht : Tidy h s) (hn : Named h s path) (hd : Holds h.follow s path d) :
    ∃ n, 1 ≤ n ∧ IsFamily s path n d := by
  cases ht.family path hn with
  | inl hnone => exact absurd hd (not_holds_of_none hnone)
  | inr hlink =>
    obtain ⟨n, hpos, hle, hlink, hfile⟩ := hlink
    rw [holds_iff_of_link hlink, follow_finalOf hn.1 (ht.absolute path hn)] at hd
    cases hfile with
    | inl hnone => exact absurd hd (not_holds_of_none hnone)
    | inr hfile =>
      obtain ⟨c, hc⟩ := hfile
      have hdc := (holds_iff_of_file hc).1 hd
      exact ⟨n, hpos, hle, hlink, hdc ▸ hc⟩

/-- Only names of this family are changed, of those that the guest does not see. -/
def ChangedIn (intermediate : CStr) (s s' : HostStore D) : Prop :=
  ∀ path, isL2sInternalPath path = true → path ≠ intermediate →
    (∀ n, path ≠ finalOf intermediate n) → s' path = s path

theorem ChangedIn.trans {s₂ : HostStore D} (h₁ : ChangedIn intermediate s s')
    (h₂ : ChangedIn intermediate s' s₂) : ChangedIn intermediate s s₂ :=
  fun path hpath hne hfinal => (h₂ path hpath hne hfinal).trans (h₁ path hpath hne hfinal)

/-- Another family keeps what it holds. -/
theorem Tidy.holds_other (ht : Tidy h s) (hn : Named h s path) (hd : Holds h.follow s path d)
    (hsame : ChangedIn intermediate s s') (hne : path ≠ intermediate)
    (hfinal : ∀ n, path ≠ finalOf intermediate n)
    (hapart : s intermediate ≠ none → ∀ n, intermediate ≠ finalOf path n) :
    Holds h.follow s' path d := by
  obtain ⟨n, -, hfamily⟩ := ht.isFamily hn hd
  have hdata : finalOf path n ≠ intermediate := by
    intro heq
    refine hapart ?_ n heq.symm
    rw [← heq, hfamily.data]
    exact Option.some_ne_none _
  have hkept : IsFamily s' path n d := by
    refine ⟨hfamily.count, ?_, ?_⟩
    · rw [hsame path hn.1 hne hfinal]
      exact hfamily.linked
    · rw [hsame _ (isL2sInternalPath_finalOf hn.1 n) hdata fun m heq => hne (finalOf_inj heq).1]
      exact hfamily.data
  exact hkept.holds hn.1 (ht.absolute path hn)

/-- **When a change of one family, and of one name that the guest sees, leaves every such
name as it was**: what the name and the intermediate held they hold. -/
theorem readable_iff_of_one {p : CStr} (ht : Tidy h s)
    (hi : isL2sInternalPath intermediate = true) (hp : isL2sInternalPath p = false)
    (hsame : ChangedIn intermediate s s')
    (hvisible : ∀ q, isL2sInternalPath q = false → q ≠ p → s' q = s q)
    (hfinals : ∀ n, ¬ Named h s (finalOf intermediate n))
    (hapart : s intermediate ≠ none → ∀ path, Named h s path → ∀ n, intermediate ≠ finalOf path n) :
    Readable h s s' ↔ (∀ d, Holds h.follow s p d → Holds h.follow s' p d) ∧
      ∀ q t, isL2sInternalPath q = false → q ≠ p → s q = some (.link t) →
        h.follow q t = intermediate →
        ∀ d, Holds h.follow s intermediate d → Holds h.follow s' intermediate d := by
  rw [Readable, keepsOutside_iff]
  constructor
  · rintro ⟨hchanged, hlinks⟩
    refine ⟨fun d hd => ?_, fun q t hq hqp hlink hfollow d hd => ?_⟩
    · by_cases hpsame : s' p = s p
      · have hall : Readable h s s' := keepsOutside_iff.2 ⟨hchanged, hlinks⟩
        exact hall p (by simp [hp]) d hd
      · exact hchanged p (by rw [hp]; decide) hpsame d hd
    · have hheld := hlinks q t (by rw [hq]; decide) (hvisible q hq hqp) hlink
      rw [hfollow] at hheld
      exact hheld hi d hd
  · rintro ⟨hone, hothers⟩
    refine ⟨fun q hq hdiff => ?_, fun q t hq hqsame hlink hin d hd => ?_⟩
    · rw [Bool.not_eq_true] at hq
      have hqp : q = p := by
        by_contra hqp
        exact hdiff (hvisible q hq hqp)
      exact hqp ▸ hone
    · rw [Bool.not_eq_true] at hq
      have hnamed : Named h s (h.follow q t) := ⟨hin, q, t, hq, hlink, rfl⟩
      by_cases hqp : q = p
      · subst hqp
        exact (holds_iff_of_link (hqsame.trans hlink)).1 (hone d (.link hlink hd))
      by_cases hsame' : h.follow q t = intermediate
      · rw [hsame'] at hd ⊢
        exact hothers q t hq hqp hlink hsame' d hd
      · refine ht.holds_other hnamed hd hsame hsame' (fun n heq => hfinals n (heq ▸ hnamed)) ?_
        exact fun hthere => hapart hthere _ hnamed

/-- The same where no visible name changes. -/
theorem readable_iff (ht : Tidy h s) (hn : Named h s intermediate)
    (hsame : ChangedIn intermediate s s')
    (hvisible : ∀ q, isL2sInternalPath q = false → s' q = s q) :
    Readable h s s' ↔
      ∀ d, Holds h.follow s intermediate d → Holds h.follow s' intermediate d := by
  obtain ⟨hin, q, t, hq, hlink, hfollow⟩ := id hn
  rw [readable_iff_of_one ht hin hq hsame (fun x hx _ => hvisible x hx)
    (fun m hm => ht.apart _ _ hn hm m rfl) fun _ x hx => ht.apart _ _ hx hn]
  simp only [holds_iff_of_link hlink, holds_iff_of_link ((hvisible q hq).trans hlink), hfollow]
  exact and_iff_left_of_imp fun hheld _ _ _ _ _ _ => hheld

theorem IsFamily.readable_iff (hf : IsFamily s intermediate n c) (ht : Tidy h s)
    (hn : Named h s intermediate) (hsame : ChangedIn intermediate s s')
    (hvisible : ∀ q, isL2sInternalPath q = false → s' q = s q) :
    Readable h s s' ↔ Holds h.follow s' intermediate c := by
  have hold := hf.holds (h := h) hn.1 (ht.absolute _ hn)
  rw [Link2symlink.readable_iff ht hn hsame hvisible]
  constructor
  · intro hheld
    exact hheld c hold
  · intro hheld d hd
    exact hold.unique hd ▸ hheld

end

/-! ### A new number of links -/

/-- The host moves the file to the new name. -/
def L2sHost.Renames (h : L2sHost D) (s : HostStore D) (old new : CStr) : Prop :=
  s new ≠ some .directory ∧ h.refuses (.rename old new) = none

/-- The host makes the intermediate again, with this number of links. -/
def L2sHost.Relinks (h : L2sHost D) (intermediate : CStr) (n : ℕ) : Prop :=
  h.refuses (.unlink intermediate) = none ∧
    h.refuses (.symlink (finalOf intermediate n) intermediate) = none

/-- Names of the family but these three are not changed. -/
def OnlyRecounted (intermediate : CStr) (n m : ℕ) (s s' : HostStore D) : Prop :=
  ∀ path, path ≠ intermediate → path ≠ finalOf intermediate n → path ≠ finalOf intermediate m →
    s' path = s path

/-- How a new number of links ends. -/
structure Recounted (h : L2sHost D) (s : HostStore D) (intermediate : CStr) (n m : ℕ) (c : D)
    (r : HostStore D × Except Errno Unit) : Prop where
  only : OnlyRecounted intermediate n m s r.1
  /-- The data is lost from the first call that moves it to the last. -/
  holds_iff : Holds h.follow r.1 intermediate c ↔
    ¬ h.Renames s (finalOf intermediate n) (finalOf intermediate m) ∨ h.Relinks intermediate m
  done_iff : r.2 = .ok () ↔
    h.Renames s (finalOf intermediate n) (finalOf intermediate m) ∧ h.Relinks intermediate m
  done : r.2 = .ok () → IsFamily r.1 intermediate m c ∧ r.1 (finalOf intermediate n) = none

section

variable {h : L2sHost D} {s s' : HostStore D} {intermediate : CStr} {n m : ℕ} {c : D}

theorem recount_spec (hi : IsIntermediate h intermediate) (hf : IsFamily s intermediate n c)
    (hm : m ≤ maxLinkCount) (hnm : n ≠ m) :
    Recounted h s intermediate n m c
      (h.recount s intermediate (finalOf intermediate n) (finalOf intermediate m)) := by
  have hentry := hi.entry_finalOf
  have hne := finalOf_ne_finalOf intermediate hf.count hm hnm
  have hin := finalOf_ne intermediate n
  have him := finalOf_ne intermediate m
  by_cases hmove : h.Renames s (finalOf intermediate n) (finalOf intermediate m)
  case neg =>
    obtain ⟨e, -, he⟩ := L2sHost.rename_file_error hf.data hmove
    simp only [L2sHost.recount, L2sHost.l2sRename_eq (hentry n) (hentry m), he]
    exact ⟨fun _ _ _ _ => rfl, iff_of_true (hf.holds hi.isInternal hi.absolute) (.inl hmove),
      iff_of_false (by simp) fun hall => hmove hall.1, by simp⟩
  have hmoved : Function.update (Function.update s (finalOf intermediate n) none)
      (finalOf intermediate m) (some (.file c)) intermediate =
        some (.link (finalOf intermediate n)) := by
    rw [Function.update_of_ne him.symm, Function.update_of_ne hin.symm, hf.linked]
  simp only [L2sHost.recount, L2sHost.l2sRename_eq (hentry n) (hentry m),
    L2sHost.rename_file hf.data hmove.1 hmove.2 hne, L2sHost.l2sUnlink_eq hi.entry,
    L2sHost.l2sSymlink_eq hi.entry]
  by_cases hunlink : h.refuses (.unlink intermediate) = none
  case neg =>
    -- The intermediate leads to where the data was.
    obtain ⟨e, he⟩ : ∃ e, h.unlink
        (Function.update (Function.update s (finalOf intermediate n) none)
          (finalOf intermediate m) (some (.file c))) intermediate = .error e :=
      L2sHost.unlink_error (.inr (.inr hunlink))
    have hdangling : Dangling (Function.update (Function.update s (finalOf intermediate n) none)
        (finalOf intermediate m) (some (.file c))) intermediate := by
      refine .inr ⟨n, hmoved, ?_⟩
      rw [Function.update_of_ne hne, Function.update_self]
    simp only [he]
    refine ⟨fun path _ hpn hpm => ?_,
      iff_of_false (hdangling.not_holds hi.isInternal hi.absolute) fun hor => ?_,
      iff_of_false (by simp) fun hall => hunlink hall.2.1, by simp⟩
    · simp only [Function.update_of_ne hpm, Function.update_of_ne hpn]
    · exact hor.elim (fun hno => hno hmove) fun hlinks => hunlink hlinks.1
  rw [L2sHost.unlink_ok hmoved (by simp) hunlink]
  cases hsymlink : h.refuses (.symlink (finalOf intermediate m) intermediate) with
  | some e =>
    simp only [L2sHost.symlink_refused (Function.update_self ..) hsymlink]
    have hnot : ¬ h.Relinks intermediate m := fun hlinks => by simp [hlinks.2] at hsymlink
    refine ⟨fun path hp hpn hpm => ?_, iff_of_false (not_holds_of_none (Function.update_self ..))
      fun hor => hor.elim (fun hno => hno hmove) hnot,
      iff_of_false (by simp) fun hall => hnot hall.2, by simp⟩
    simp only [Function.update_of_ne hp, Function.update_of_ne hpm, Function.update_of_ne hpn]
  | none =>
    simp only [L2sHost.symlink_free (Function.update_self ..) hsymlink]
    have hfamily : IsFamily (Function.update (Function.update (Function.update (Function.update s
        (finalOf intermediate n) none) (finalOf intermediate m) (some (.file c))) intermediate none)
        intermediate (some (.link (finalOf intermediate m)))) intermediate m c := by
      refine ⟨hm, Function.update_self .., ?_⟩
      rw [Function.update_of_ne him, Function.update_of_ne him, Function.update_self]
    refine ⟨fun path hp hpn hpm => ?_,
      iff_of_true (hfamily.holds hi.isInternal hi.absolute) (.inr ⟨hunlink, hsymlink⟩),
      iff_of_true rfl ⟨hmove, hunlink, hsymlink⟩, fun _ => ⟨hfamily, ?_⟩⟩
    · simp only [Function.update_of_ne hp, Function.update_of_ne hpm, Function.update_of_ne hpn]
    · simp only [Function.update_of_ne hin, Function.update_of_ne hne, Function.update_self]

theorem OnlyRecounted.changedIn (hsame : OnlyRecounted intermediate n m s s') :
    ChangedIn intermediate s s' :=
  fun path _ hne hfinal => hsame path hne (hfinal n) (hfinal m)

theorem OnlyRecounted.visible (hsame : OnlyRecounted intermediate n m s s')
    (hi : isL2sInternalPath intermediate = true) {q : CStr} (hq : isL2sInternalPath q = false) :
    s' q = s q :=
  hsame q (ne_of_visible hq hi) (ne_of_visible hq (isL2sInternalPath_finalOf hi n))
    (ne_of_visible hq (isL2sInternalPath_finalOf hi m))

/-- A new number of links harms no name if nothing moves, or the intermediate
follows. -/
theorem Recounted.readable_iff {r : HostStore D × Except Errno Unit}
    (hr : Recounted h s intermediate n m c r) (ht : Tidy h s) (hn : Named h s intermediate)
    (hf : IsFamily s intermediate n c) :
    Readable h s r.1 ↔
      ¬ h.Renames s (finalOf intermediate n) (finalOf intermediate m) ∨
        h.Relinks intermediate m :=
  (hf.readable_iff ht hn hr.only.changedIn fun _ hq => hr.only.visible hn.1 hq).trans hr.holds_iff

end

end NeoProot.Link2symlink
