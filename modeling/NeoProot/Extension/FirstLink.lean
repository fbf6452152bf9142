import NeoProot.Extension.FamilyNames

/-!
# The first link of a file

A hard link that is made of symbolic links must leave every other name with the
data it had.  `linkCall_safe_iff` says exactly when it does: the search of a free
name must not end with a name that is taken, the data must not move onto other
data, and no call of the host may fail once the data has moved.

## Main definitions

* `LinksSafely` — what a link must keep.
* `L2sHost.LinkSpares` — the condition.
-/

namespace NeoProot.Link2symlink
open LinkStore

variable {D : Type}
variable {d : CStr} {i o : Option (Node CStr D)}

/-- The call with the kernel's part, where the kernel is left to make the link. -/
def L2sHost.linkCall (h : L2sHost D) (s : HostStore D) (src dest : Except Errno CStr) :
    HostStore D × LinkAnswer :=
  match h.moveAndSymlinkPath s src dest with
  | (s, .kernel) =>
    match src, dest with
    | .ok src, .ok dest =>
      match h.link s src dest with
      | .ok s => (s, .done)
      | .error e => (s, .failed e)
    | .error e, _ => (s, .failed e)
    | _, .error e => (s, .failed e)
  | answer => answer

/-- The data file of a family. -/
def IsFinal (s : HostStore D) (final : CStr) : Prop :=
  ∃ intermediate d, isL2sInternalPath intermediate = true ∧
    s intermediate = some (.link final) ∧ s final = some (.file d)

/-- The destination, if it was there, is what it was. -/
def DestKept (h : L2sHost D) (s s' : HostStore D) (original : CStr) (c : D)
    (dest : Except Errno CStr) : Prop :=
  ∀ d, dest = .ok d → s d ≠ none →
    (d ≠ original → s' d = s d) ∧ (d = original → Holds h.follow s' original c)

/-- **What a link of a file must keep.** -/
structure LinksSafely (h : L2sHost D) (s : HostStore D) (original : CStr) (c : D)
    (dest : Except Errno CStr) (r : HostStore D × LinkAnswer) : Prop where
  answered : r.2 ≠ .kernel
  /-- A link that is made leads to the data, from both names. -/
  linked : r.2 = .done → ∃ d, dest = .ok d ∧ s d = none ∧
    Holds h.follow r.1 original c ∧ Holds h.follow r.1 d c
  /-- Every other name holds what it held. -/
  others : KeepsOthers h.follow original s r.1
  destKept : DestKept h s r.1 original c dest
  /-- The data does not move to the final file of another family. -/
  newFinal : ∀ stem, h.stemOfFile original = .ok stem → r.1 original ≠ s original →
    ¬ IsFinal s (firstFinal (h.newIntermediate s stem))

/-! ### The condition -/

section

open scoped Classical

variable (h : L2sHost D) (s : HostStore D) (dest : Except Errno CStr)

/-- The name may become this node, which holds this data: it holds nothing else, and
it is not the destination. -/
def MayBecome (path : CStr) (node : Option (Node CStr D)) (data : Option D) : Prop :=
  (∀ d, Holds h.follow s path d → data = some d) ∧
    (dest = .ok path → s path ≠ none → s path = node)

/-- No other name, apart from these, leads straight to the source. -/
def Alone (original : CStr) (changed : List CStr) : Prop :=
  dest ≠ .ok original ∧
    ∀ path text, path ∉ changed → s path = some (.link text) → h.follow path text ≠ original

/-- The destination can be made, after the names of the family. -/
def DestFree (intermediate final : CStr) : Prop :=
  ∃ d, dest = .ok d ∧ d ≠ final ∧ d ≠ intermediate ∧ s d = none ∧
    h.refuses (.symlink intermediate d) = none

/-- The family takes the source back to one link. -/
def UncountSpares (original intermediate final : CStr) (c : D) : Prop :=
  if isL2sInternalPath intermediate = true ∧ final.length < pathMax - 1 ∧
      s (withLinkCount final 1) ≠ some .directory ∧
      h.refuses (.rename final (withLinkCount final 1)) = none then
    MayBecome h s dest final none none ∧
    MayBecome h s dest (withLinkCount final 1) (some (.file c)) (some c) ∧
    if h.refuses (.unlink intermediate) ≠ none then
      MayBecome h s dest intermediate (some (.link final)) none ∧
        Alone h s dest original [intermediate, final, withLinkCount final 1]
    else if h.refuses (.symlink (withLinkCount final 1) intermediate) ≠ none then
      MayBecome h s dest intermediate none none ∧
        Alone h s dest original [intermediate, final, withLinkCount final 1]
    else MayBecome h s dest intermediate (some (.link (withLinkCount final 1))) (some c)
  else
    MayBecome h s dest final (some (.file c)) (some c) ∧
      MayBecome h s dest intermediate (some (.link final)) (some c)

/-- A family of its own is made. -/
def FamilySpares (original intermediate final : CStr) (c : D) : Prop :=
  if h.refuses (.symlink final intermediate) ≠ none then
    MayBecome h s dest final (some (.file c)) (some c) ∧
      MayBecome h s dest intermediate none none ∧ Alone h s dest original [intermediate, final]
  else if h.refuses (.symlink intermediate original) ≠ none then
    MayBecome h s dest final (some (.file c)) (some c) ∧
      MayBecome h s dest intermediate (some (.link final)) (some c) ∧
      Alone h s dest original [intermediate, final]
  else if DestFree h s dest intermediate final then
    MayBecome h s dest final (some (.file c)) (some c) ∧
      MayBecome h s dest intermediate (some (.link final)) (some c)
  else UncountSpares h s dest original intermediate final c

/-- The names join the family of the intermediate that is there. -/
def ReuseSpares (moved : HostStore D) (original intermediate final : CStr) (c : D) : Prop :=
  MayBecome h s dest final (some (.file c)) (some c) ∧
    (h.refuses (.symlink intermediate original) = none ∧ Holds h.follow moved intermediate c ∨
      ¬ DestFree h s dest intermediate final ∧ Alone h s dest original [final])

/-- The condition, once the names are chosen. -/
def FirstLinkSpares (original intermediate final : CStr) (c : D) : Prop :=
  match h.rename s original final with
  | .error _ => True
  | .ok moved =>
    ¬ IsFinal s final ∧
      if s intermediate ≠ none ∧ h.Usable moved intermediate = true then
        ReuseSpares h s dest moved original intermediate final c
      else if s intermediate = some .directory ∨
          s intermediate ≠ none ∧ h.refuses (.unlink intermediate) ≠ none then
        MayBecome h s dest final (some (.file c)) (some c) ∧ Alone h s dest original [final]
      else FamilySpares h s dest original intermediate final c

/-- **When a link of a file keeps everything else.** -/
def L2sHost.LinkSpares (original : CStr) (c : D) : Prop :=
  dest.toOption.any isGitOdbLinkDest = true ∨ h.RawDirectoryTooLong ∨
    ∀ stem, h.stemOfFile original = .ok stem →
      FirstLinkSpares h s dest original (h.newIntermediate s stem)
        (firstFinal (h.newIntermediate s stem)) c

end

/-! ### Changed names -/

section

variable {h : L2sHost D} {s s' : HostStore D} {original : CStr} {c : D}
  {dest : Except Errno CStr}

/-- What the change of one name must keep. -/
def Becomes (h : L2sHost D) (s s' : HostStore D) (dest : Except Errno CStr) (path : CStr) : Prop :=
  (∀ d, Holds h.follow s path d → Holds h.follow s' path d) ∧
    (dest = .ok path → s path ≠ none → s' path = s path)

theorem becomes_iff {path : CStr} {node : Option (Node CStr D)} {data : Option D}
    (hnode : s' path = node) (hdata : ∀ d, Holds h.follow s' path d ↔ data = some d) :
    Becomes h s s' dest path ↔ MayBecome h s dest path node data := by
  rw [Becomes, MayBecome, hnode]
  simp only [hdata, eq_comm]

/-- **What a change must keep, name by name.** -/
theorem kept_iff (changed : List CStr) (hp : s original = some (.file c)) (hpX : original ∉ changed)
    (hout : ∀ path, path ∉ changed → path ≠ original → s' path = s path)
    (hlinks : ∀ path ∈ changed, ∀ text, s' path = some (.link text) →
      h.follow path text ≠ original) :
    KeepsOthers h.follow original s s' ∧ DestKept h s s' original c dest ↔
      (∀ path ∈ changed, Becomes h s s' dest path) ∧
        (Holds h.follow s' original c ∨ Alone h s dest original changed) := by
  constructor
  · rintro ⟨hothers, hdest⟩
    refine ⟨fun path hpath => ?_, ?_⟩
    · have hne : path ≠ original := fun heq => hpX (heq ▸ hpath)
      exact ⟨hothers path hne, fun hd hsome => (hdest path hd hsome).1 hne⟩
    · by_cases hlost : Holds h.follow s' original c
      · exact .inl hlost
      · have hnone := ((keepsOthers_iff hp).1 hothers).2.resolve_left hlost
        refine .inr ⟨fun hd => ?_, fun path text hpath htext => ?_⟩
        · exact hlost ((hdest original hd (by simp [hp])).2 rfl)
        · refine hnone path text (hout path hpath ?_) htext
          rintro rfl
          rw [hp] at htext
          cases htext
  · rintro ⟨hbecomes, hlost⟩
    refine ⟨(keepsOthers_iff hp).2 ⟨fun path hne hdiff => ?_, ?_⟩, fun d hd hsome => ⟨?_, ?_⟩⟩
    · have hmem : path ∈ changed := by
        by_contra hmem
        exact hdiff (hout path hmem hne)
      exact (hbecomes path hmem).1
    · refine hlost.imp id fun halone path text hsame htext => ?_
      by_cases hmem : path ∈ changed
      · exact hlinks path hmem text (hsame.trans htext)
      · exact halone.2 path text hmem htext
    · intro hne
      by_cases hmem : d ∈ changed
      · exact (hbecomes d hmem).2 hd hsome
      · exact hout d hmem hne
    · rintro rfl
      exact hlost.resolve_right fun halone => halone.1 hd

end

section

variable {h : L2sHost D} {s s' : HostStore D} {original intermediate final : CStr} {c : D}
  {dest : Except Errno CStr} {stem : CStr}

theorem becomes_of_none {path : CStr} (hnone : s path = none) : Becomes h s s' dest path :=
  ⟨fun _ hd => absurd hd (not_holds_of_none hnone), fun _ hsome => absurd hnone hsome⟩

theorem safe_failed_iff (e : Errno) (hstem : h.stemOfFile original = .ok stem)
    (hmoved : s' original ≠ s original) :
    LinksSafely h s original c dest (s', .failed e) ↔
      ¬ IsFinal s (firstFinal (h.newIntermediate s stem)) ∧
        (KeepsOthers h.follow original s s' ∧ DestKept h s s' original c dest) := by
  constructor
  · intro hsafe
    exact ⟨hsafe.newFinal stem hstem hmoved, hsafe.others, hsafe.destKept⟩
  · rintro ⟨hnew, hothers, hdest⟩
    refine ⟨by simp, fun hdone => (by cases hdone), hothers, hdest, fun stem' hstem' _ => ?_⟩
    rw [hstem, Except.ok.injEq] at hstem'
    rw [← hstem']
    exact hnew

theorem safe_done_iff (hstem : h.stemOfFile original = .ok stem) (hmoved : s' original ≠ s original)
    (hd : dest = .ok d) (hfree : s d = none) :
    LinksSafely h s original c dest (s', .done) ↔
      ¬ IsFinal s (firstFinal (h.newIntermediate s stem)) ∧
        ((Holds h.follow s' original c ∧ Holds h.follow s' d c) ∧
          (KeepsOthers h.follow original s s' ∧ DestKept h s s' original c dest)) := by
  constructor
  · intro hsafe
    obtain ⟨d', hd', _, hheld⟩ := hsafe.linked rfl
    rw [hd, Except.ok.injEq] at hd'
    exact ⟨hsafe.newFinal stem hstem hmoved, hd' ▸ hheld, hsafe.others, hsafe.destKept⟩
  · rintro ⟨hnew, hheld, hothers, hdest⟩
    refine ⟨by simp, fun _ => ⟨d, hd, hfree, hheld⟩, hothers, hdest, fun stem' hstem' _ => ?_⟩
    rw [hstem, Except.ok.injEq] at hstem'
    rw [← hstem']
    exact hnew

/-- The store with the three names of a new family set, and the rest as it was. -/
structure Arranged (s s' : HostStore D) (original intermediate final : CStr)
    (o i f : Option (Node CStr D)) : Prop where
  original_eq : s' original = o
  intermediate_eq : s' intermediate = i
  final_eq : s' final = f
  rest : ∀ path, path ≠ original → path ≠ intermediate → path ≠ final → s' path = s path

namespace Arranged

variable {o i f : Option (Node CStr D)} (hs : Arranged s s' original intermediate final o i f)
  (hn : NewNames h original intermediate final)
include hs hn

theorem setOriginal (o' : Option (Node CStr D)) :
    Arranged s (Function.update s' original o') original intermediate final o' i f where
  original_eq := Function.update_self ..
  intermediate_eq := (Function.update_of_ne hn.intermediate_ne ..).trans hs.intermediate_eq
  final_eq := (Function.update_of_ne hn.final_ne ..).trans hs.final_eq
  rest path ho hi hf := (Function.update_of_ne ho ..).trans (hs.rest path ho hi hf)

theorem setIntermediate (i' : Option (Node CStr D)) :
    Arranged s (Function.update s' intermediate i') original intermediate final o i' f where
  original_eq := (Function.update_of_ne hn.intermediate_ne.symm ..).trans hs.original_eq
  intermediate_eq := Function.update_self ..
  final_eq := (Function.update_of_ne hn.final_ne_intermediate ..).trans hs.final_eq
  rest path ho hi hf := (Function.update_of_ne hi ..).trans (hs.rest path ho hi hf)

theorem setFinal (f' : Option (Node CStr D)) :
    Arranged s (Function.update s' final f') original intermediate final o i f' where
  original_eq := (Function.update_of_ne hn.final_ne.symm ..).trans hs.original_eq
  intermediate_eq := (Function.update_of_ne hn.final_ne_intermediate.symm ..).trans
    hs.intermediate_eq
  final_eq := Function.update_self ..
  rest path ho hi hf := (Function.update_of_ne hf ..).trans (hs.rest path ho hi hf)

end Arranged

/-- Links that are made lead to the data. -/
theorem Arranged.holds_made (hn : NewNames h original intermediate final)
    (hs : Arranged s s' original intermediate final o (some (.link final)) (some (.file c)))
    (d : D) : Holds h.follow s' intermediate d ↔ d = c := by
  rw [holds_iff_of_link hs.intermediate_eq, hn.follow_final, holds_iff_of_file hs.final_eq]

theorem Arranged.kept_iff {f : Option (Node CStr D)} (iData fData : Option D)
    (hn : NewNames h original intermediate final) (hp : s original = some (.file c))
    (hs : Arranged s s' original intermediate final o i f)
    (hi : ∀ d, Holds h.follow s' intermediate d ↔ iData = some d)
    (hf : ∀ d, Holds h.follow s' final d ↔ fData = some d)
    (hlink : ∀ text, i = some (.link text) → text = final) (hfile : ∀ text, f ≠ some (.link text)) :
    KeepsOthers h.follow original s s' ∧ DestKept h s s' original c dest ↔
      (MayBecome h s dest final f fData ∧ MayBecome h s dest intermediate i iData) ∧
        (Holds h.follow s' original c ∨ Alone h s dest original [intermediate, final]) := by
  rw [Link2symlink.kept_iff [intermediate, final] hp]
  · simp only [List.forall_mem_cons, List.not_mem_nil, false_implies, implies_true, and_true,
      becomes_iff hs.intermediate_eq hi, becomes_iff hs.final_eq hf]
    rw [and_comm (a := MayBecome h s dest intermediate i iData)]
  · simp [hn.intermediate_ne.symm, hn.final_ne.symm]
  · intro path hpath hne
    simp only [List.mem_cons, List.not_mem_nil, or_false, not_or] at hpath
    exact hs.rest path hne hpath.1 hpath.2
  · intro path hpath text htext
    simp only [List.mem_cons, List.not_mem_nil, or_false] at hpath
    cases hpath with
    | inl hpath =>
      rw [hpath, hs.intermediate_eq] at htext
      rw [hlink text htext, hn.follow_final]
      exact hn.final_ne
    | inr hpath =>
      rw [hpath, hs.final_eq] at htext
      exact absurd htext (hfile text)

/-! ### A destination that cannot be made -/

/-- The number in the name of a new final file is read back unless the name was cut
short, and then the family is left alone. -/
theorem decrementLinkCount_made (hn : NewNames h original intermediate final)
    (hs : Arranged s s' original intermediate final (some (.link intermediate))
      (some (.link final)) (some (.file c))) :
    h.decrementLinkCount s' (.ok original) =
      if isL2sInternalPath intermediate = true ∧ final.length < pathMax - 1 then
        h.recount s' intermediate final (withLinkCount final 1)
      else (s', .ok ()) := by
  simp only [L2sHost.decrementLinkCount, L2sHost.l2sLstat_some (hn.entry _) hs.original_eq,
    L2sHost.myReadlink_link (hn.entry _) hs.original_eq hn.short]
  by_cases hname : isL2sInternalPath intermediate = true
  · by_cases hlong : final.length < pathMax - 1
    · simp only [hname, hlong, and_self, if_true, hn.parse hlong,
        L2sHost.myReadlink_link (hn.entry _) hs.intermediate_eq hlong]
      rfl
    · simp only [hname, hlong, and_false, if_true, if_false,
        L2sHost.myReadlink_long (hn.entry _) hs.intermediate_eq (Nat.not_lt.1 hlong)]
  · simp only [hname, if_false, Bool.false_eq_true]
    simp

/-- The links are made, and the source leads to its data. -/
theorem made_kept_iff (hn : NewNames h original intermediate final)
    (hp : s original = some (.file c))
    (hs : Arranged s s' original intermediate final (some (.link intermediate))
      (some (.link final)) (some (.file c))) :
    KeepsOthers h.follow original s s' ∧ DestKept h s s' original c dest ↔
      MayBecome h s dest final (some (.file c)) (some c) ∧
        MayBecome h s dest intermediate (some (.link final)) (some c) := by
  have hdata : ∀ d, Holds h.follow s' intermediate d ↔ some c = some d := by
    intro d
    rw [hs.holds_made hn, Option.some.injEq, eq_comm]
  have hsource : Holds h.follow s' original c := by
    rw [holds_iff_of_link hs.original_eq, hn.follow_intermediate, hs.holds_made hn]
  rw [hs.kept_iff (some c) (some c) hn hp hdata]
  · simp only [hsource, true_or, and_true]
  · intro d
    rw [holds_iff_of_file hs.final_eq, Option.some.injEq, eq_comm]
  · intro text htext
    cases htext
    rfl
  · intro text htext
    cases htext

/-- The final file has a name for one link. -/
theorem uncounted_kept_iff (iData : Option D) (hn : NewNames h original intermediate final)
    (hlong : final.length < pathMax - 1) (hp : s original = some (.file c))
    (hs : Arranged (Function.update s (withLinkCount final 1) (some (.file c))) s' original
      intermediate final (some (.link intermediate)) i none)
    (hi : ∀ d, Holds h.follow s' intermediate d ↔ iData = some d)
    (hlink : ∀ text, i = some (.link text) → text = final ∨ text = withLinkCount final 1) :
    KeepsOthers h.follow original s s' ∧ DestKept h s s' original c dest ↔
      MayBecome h s dest final none none ∧
        MayBecome h s dest (withLinkCount final 1) (some (.file c)) (some c) ∧
        MayBecome h s dest intermediate i iData ∧
        (iData = some c ∨
          Alone h s dest original [intermediate, final, withLinkCount final 1]) := by
  have hg : s' (withLinkCount final 1) = some (.file c) := by
    rw [hs.rest _ (hn.uncounted_ne hlong) (hn.uncounted_ne_intermediate hlong)
      (hn.uncounted_ne_final hlong), Function.update_self]
  have hfinal : ∀ d, Holds h.follow s' final d ↔ none = some d := by
    intro d
    simp only [not_holds_of_none hs.final_eq, reduceCtorEq]
  have hgdata : ∀ d, Holds h.follow s' (withLinkCount final 1) d ↔ some c = some d := by
    intro d
    rw [holds_iff_of_file hg, Option.some.injEq, eq_comm]
  have hsource : Holds h.follow s' original c ↔ iData = some c := by
    rw [holds_iff_of_link hs.original_eq, hn.follow_intermediate, hi]
  rw [Link2symlink.kept_iff [intermediate, final, withLinkCount final 1] hp]
  · simp only [List.forall_mem_cons, List.not_mem_nil, false_implies, implies_true, and_true,
      becomes_iff hs.intermediate_eq hi, becomes_iff hs.final_eq hfinal, becomes_iff hg hgdata,
      hsource]
    constructor
    · rintro ⟨⟨hmi, hmf, hmg⟩, hlost⟩
      exact ⟨hmf, hmg, hmi, hlost⟩
    · rintro ⟨hmf, hmg, hmi, hlost⟩
      exact ⟨⟨hmi, hmf, hmg⟩, hlost⟩
  · simp [hn.intermediate_ne.symm, hn.final_ne.symm, (hn.uncounted_ne hlong).symm]
  · intro path hpath hne
    simp only [List.mem_cons, List.not_mem_nil, or_false, not_or] at hpath
    rw [hs.rest path hne hpath.1 hpath.2.1, Function.update_of_ne hpath.2.2]
  · intro path hpath text htext
    simp only [List.mem_cons, List.not_mem_nil, or_false] at hpath
    rcases hpath with rfl | rfl | rfl
    · rw [hs.intermediate_eq] at htext
      cases hlink text htext with
      | inl hf => rw [hf, hn.follow_final]; exact hn.final_ne
      | inr hg => rw [hg, hn.follow_uncounted hlong]; exact hn.uncounted_ne hlong
    · rw [hs.final_eq] at htext
      cases htext
    · rw [hg] at htext
      cases htext

/-- **When a destination that cannot be made leaves everything else.** -/
theorem uncount_kept_iff (hn : NewNames h original intermediate final)
    (hp : s original = some (.file c))
    (hs : Arranged s s' original intermediate final (some (.link intermediate))
      (some (.link final)) (some (.file c))) :
    (KeepsOthers h.follow original s (h.decrementLinkCount s' (.ok original)).1 ∧
      DestKept h s (h.decrementLinkCount s' (.ok original)).1 original c dest) ↔
      UncountSpares h s dest original intermediate final c := by
  rw [decrementLinkCount_made hn hs, UncountSpares]
  by_cases hcounted : isL2sInternalPath intermediate = true ∧ final.length < pathMax - 1
  swap
  · rw [if_neg hcounted, if_neg fun hall => hcounted ⟨hall.1, hall.2.1⟩]
    exact made_kept_iff hn hp hs
  have hlong := hcounted.2
  rw [if_pos hcounted, L2sHost.recount, L2sHost.l2sRename_eq (hn.entry _) (hn.entry _)]
  have hgs : s' (withLinkCount final 1) = s (withLinkCount final 1) :=
    hs.rest _ (hn.uncounted_ne hlong) (hn.uncounted_ne_intermediate hlong)
      (hn.uncounted_ne_final hlong)
  by_cases hrename : s (withLinkCount final 1) ≠ some .directory ∧
      h.refuses (.rename final (withLinkCount final 1)) = none
  swap
  · obtain ⟨e, -, he⟩ := L2sHost.rename_file_error hs.final_eq (hgs ▸ hrename)
    rw [he, if_neg fun hall => hrename hall.2.2]
    exact made_kept_iff hn hp hs
  rw [if_pos ⟨hcounted.1, hlong, hrename⟩,
    L2sHost.rename_file hs.final_eq (hgs ▸ hrename.1) hrename.2 (hn.uncounted_ne_final hlong).symm]
  -- The final file has its new name; the intermediate still points at the old one.
  have hs₄ : Arranged (Function.update s (withLinkCount final 1) (some (.file c)))
      (Function.update (Function.update s' final none) (withLinkCount final 1) (some (.file c)))
      original intermediate final (some (.link intermediate)) (some (.link final)) none := by
    have hbase := hs.setFinal hn none
    refine ⟨?_, ?_, ?_, fun path ho hi hf => ?_⟩
    · rw [Function.update_of_ne (hn.uncounted_ne hlong).symm, hbase.original_eq]
    · rw [Function.update_of_ne (hn.uncounted_ne_intermediate hlong).symm, hbase.intermediate_eq]
    · rw [Function.update_of_ne (hn.uncounted_ne_final hlong).symm, hbase.final_eq]
    · by_cases hpath : path = withLinkCount final 1
      · rw [hpath, Function.update_self, Function.update_self]
      · rw [Function.update_of_ne hpath, Function.update_of_ne hpath, hbase.rest path ho hi hf]
  generalize hgen : Function.update (Function.update s' final none) (withLinkCount final 1)
    (some (.file c)) = s₄ at hs₄ ⊢
  simp only [L2sHost.l2sUnlink_eq (hn.entry _), L2sHost.l2sSymlink_eq (hn.entry _)]
  by_cases hunlink : h.refuses (.unlink intermediate) = none
  swap
  · have herror : ∃ e, h.unlink s₄ intermediate = .error e :=
      L2sHost.unlink_error (.inr (.inr hunlink))
    obtain ⟨e, he⟩ := herror
    rw [if_pos hunlink, he, uncounted_kept_iff none hn hlong hp hs₄]
    · simp only [reduceCtorEq, false_or]
    · intro d
      rw [holds_iff_of_link hs₄.intermediate_eq, hn.follow_final]
      simp only [not_holds_of_none hs₄.final_eq, reduceCtorEq]
    · intro text htext
      cases htext
      exact .inl rfl
  rw [if_neg (by simp [hunlink]), L2sHost.unlink_ok hs₄.intermediate_eq (by simp) hunlink]
  have hs₅ := hs₄.setIntermediate hn none
  by_cases hsymlink : h.refuses (.symlink (withLinkCount final 1) intermediate) = none
  swap
  · obtain ⟨e, he⟩ := Option.ne_none_iff_exists'.1 hsymlink
    rw [if_pos hsymlink]
    simp only [L2sHost.symlink_refused hs₅.intermediate_eq he]
    rw [uncounted_kept_iff none hn hlong hp hs₅]
    · simp only [reduceCtorEq, false_or]
    · intro d
      simp only [not_holds_of_none hs₅.intermediate_eq, reduceCtorEq]
    · intro text htext
      cases htext
  rw [if_neg (by simp [hsymlink])]
  simp only [L2sHost.symlink_free hs₅.intermediate_eq hsymlink]
  have hs₆ := hs₅.setIntermediate hn (some (.link (withLinkCount final 1)))
  rw [uncounted_kept_iff (some c) hn hlong hp hs₆]
  · simp only [true_or, and_true]
  · intro d
    have hg := hs₆.rest _ (hn.uncounted_ne hlong) (hn.uncounted_ne_intermediate hlong)
      (hn.uncounted_ne_final hlong)
    rw [Function.update_self] at hg
    rw [holds_iff_of_link hs₆.intermediate_eq, hn.follow_uncounted hlong, holds_iff_of_file hg,
      Option.some.injEq, eq_comm]
  · intro text htext
    cases htext
    exact .inr rfl

/-! ### A family of its own -/

/-- The destination is made after the names of the family. -/
theorem destFree_iff {f : Option (Node CStr D)} (hp : s original ≠ none)
    (hs : Arranged s s' original intermediate final o i f) (ho : o ≠ none) (hi : i ≠ none)
    (hf : f ≠ none) :
    DestFree h s dest intermediate final ↔
      ∃ d, dest = .ok d ∧ s' d = none ∧ h.refuses (.symlink intermediate d) = none := by
  constructor
  · rintro ⟨d, hd, hdf, hdi, hnone, hok⟩
    have hdo : d ≠ original := by
      rintro rfl
      exact hp hnone
    exact ⟨d, hd, (hs.rest d hdo hdi hdf).trans hnone, hok⟩
  · rintro ⟨d, hd, hnone, hok⟩
    have hdo : d ≠ original := by
      rintro rfl
      exact ho (hs.original_eq ▸ hnone)
    have hdi : d ≠ intermediate := by
      rintro rfl
      exact hi (hs.intermediate_eq ▸ hnone)
    have hdf : d ≠ final := by
      rintro rfl
      exact hf (hs.final_eq ▸ hnone)
    exact ⟨d, hd, hdf, hdi, (hs.rest d hdo hdi hdf).symm.trans hnone, hok⟩

/-- All four names are made. -/
theorem done_kept_iff (hn : NewNames h original intermediate final)
    (hp : s original = some (.file c))
    (hs : Arranged s s' original intermediate final (some (.link intermediate))
      (some (.link final)) (some (.file c))) (hd : s' d = none) :
    (Holds h.follow (Function.update s' d (some (.link intermediate))) original c ∧
      Holds h.follow (Function.update s' d (some (.link intermediate))) d c) ∧
      KeepsOthers h.follow original s (Function.update s' d (some (.link intermediate))) ∧
      DestKept h s (Function.update s' d (some (.link intermediate))) original c dest ↔
    MayBecome h s dest final (some (.file c)) (some c) ∧
      MayBecome h s dest intermediate (some (.link final)) (some c) := by
  have hdo : d ≠ original := by
    rintro rfl
    rw [hs.original_eq] at hd
    cases hd
  have hdi : d ≠ intermediate := by
    rintro rfl
    rw [hs.intermediate_eq] at hd
    cases hd
  have hdf : d ≠ final := by
    rintro rfl
    rw [hs.final_eq] at hd
    cases hd
  have hfree : s d = none := (hs.rest d hdo hdi hdf).symm.trans hd
  set s₄ := Function.update s' d (some (.link intermediate)) with hs₄
  have hfinal : s₄ final = some (.file c) :=
    (Function.update_of_ne hdf.symm ..).trans hs.final_eq
  have hinter : s₄ intermediate = some (.link final) :=
    (Function.update_of_ne hdi.symm ..).trans hs.intermediate_eq
  have horig : s₄ original = some (.link intermediate) :=
    (Function.update_of_ne hdo.symm ..).trans hs.original_eq
  have hdest : s₄ d = some (.link intermediate) := Function.update_self ..
  have hfdata : ∀ d, Holds h.follow s₄ final d ↔ some c = some d := by
    intro d
    rw [holds_iff_of_file hfinal, Option.some.injEq, eq_comm]
  have hidata : ∀ d, Holds h.follow s₄ intermediate d ↔ some c = some d := by
    intro d
    rw [holds_iff_of_link hinter, hn.follow_final, hfdata]
  have hodata : Holds h.follow s₄ original c := by
    rw [holds_iff_of_link horig, hn.follow_intermediate, hidata]
  have hddata : Holds h.follow s₄ d c := by
    rw [holds_iff_of_link hdest, hn.follow_intermediate, hidata]
  rw [Link2symlink.kept_iff [intermediate, final, d] hp]
  · simp only [List.forall_mem_cons, List.not_mem_nil, false_implies, implies_true, and_true,
      becomes_iff hinter hidata, becomes_iff hfinal hfdata, becomes_of_none hfree, hodata, hddata,
      true_and, true_or]
    exact and_comm
  · simp [hn.intermediate_ne.symm, hn.final_ne.symm, hdo.symm]
  · intro path hpath hne
    simp only [List.mem_cons, List.not_mem_nil, or_false, not_or] at hpath
    rw [hs₄, Function.update_of_ne hpath.2.2, hs.rest path hne hpath.1 hpath.2.1]
  · intro path hpath text htext
    simp only [List.mem_cons, List.not_mem_nil, or_false] at hpath
    rcases hpath with rfl | rfl | rfl
    · rw [hinter] at htext
      cases htext
      rw [hn.follow_final]
      exact hn.final_ne
    · rw [hfinal] at htext
      cases htext
    · rw [hdest] at htext
      cases htext
      rw [hn.follow_intermediate]
      exact hn.intermediate_ne

theorem decrementLinkCount_original (hn : NewNames h original intermediate final)
    (hs : Arranged s s' original intermediate final (some (.link intermediate))
      (some (.link final)) (some (.file c))) :
    (h.decrementLinkCount s' (.ok original)).1 original = some (.link intermediate) := by
  rw [decrementLinkCount_made hn hs]
  split_ifs with hcounted
  · rw [L2sHost.recount_other hn.entry hs.final_eq hn.intermediate_ne.symm hn.final_ne.symm
      (hn.uncounted_ne hcounted.2).symm, hs.original_eq]
  · exact hs.original_eq

/-- The last link of the family. -/
theorem destLink_safe_iff (hn : NewNames h original intermediate final)
    (hstem : h.stemOfFile original = .ok stem)
    (hfinal : firstFinal (h.newIntermediate s stem) = final) (hp : s original = some (.file c))
    (hs : Arranged s s' original intermediate final (some (.link intermediate))
      (some (.link final)) (some (.file c))) :
    LinksSafely h s original c dest (h.destLink s' original intermediate dest) ↔
      ¬ IsFinal s final ∧
        (DestFree h s dest intermediate final ∧
            MayBecome h s dest final (some (.file c)) (some c) ∧
            MayBecome h s dest intermediate (some (.link final)) (some c) ∨
          ¬ DestFree h s dest intermediate final ∧
            UncountSpares h s dest original intermediate final c) := by
  have hfree : DestFree h s dest intermediate final ↔ _ :=
    destFree_iff (by simp [hp]) hs (by simp) (by simp) (by simp)
  have hmoved : (h.decrementLinkCount s' (.ok original)).1 original ≠ s original := by
    rw [decrementLinkCount_original hn hs, hp]
    simp
  -- The link fails, and the family is uncounted.
  have hfailed : ∀ e, ¬ DestFree h s dest intermediate final →
      h.destLink s' original intermediate dest =
        ((h.decrementLinkCount s' (.ok original)).1, .failed e) →
      (LinksSafely h s original c dest (h.destLink s' original intermediate dest) ↔
        ¬ IsFinal s final ∧
        (DestFree h s dest intermediate final ∧
            MayBecome h s dest final (some (.file c)) (some c) ∧
            MayBecome h s dest intermediate (some (.link final)) (some c) ∨
          ¬ DestFree h s dest intermediate final ∧
            UncountSpares h s dest original intermediate final c)) := by
    intro e hnot heq
    rw [heq, safe_failed_iff e hstem hmoved, hfinal, uncount_kept_iff hn hp hs]
    simp only [hnot, false_and, not_false_eq_true, true_and, false_or]
  cases hdest : dest with
  | error e =>
    subst hdest
    refine hfailed e (fun hd => ?_) rfl
    obtain ⟨d, hd, -⟩ := hd
    cases hd
  | ok d =>
    subst hdest
    by_cases htaken : s' d = none
    · cases hrefuse : h.refuses (.symlink intermediate d) with
      | none =>
        have hd : DestFree h s (.ok d) intermediate final := hfree.2 ⟨d, rfl, htaken, hrefuse⟩
        obtain ⟨d', hd', -, -, hnone, -⟩ := id hd
        cases hd'
        have hmade : Function.update s' d (some (.link intermediate)) original ≠ s original := by
          rw [Function.update_of_ne, hs.original_eq, hp]
          · simp
          · rintro rfl
            rw [hp] at hnone
            cases hnone
        rw [L2sHost.destLink, L2sHost.symlink_free htaken hrefuse]
        simp only []
        rw [safe_done_iff hstem hmade rfl hnone, hfinal, done_kept_iff hn hp hs htaken]
        simp only [hd, true_and, not_true, false_and, or_false]
      | some e =>
        refine hfailed e (fun hd => ?_) ?_
        · obtain ⟨d', hd', -, hok⟩ := hfree.1 hd
          cases hd'
          rw [hrefuse] at hok
          cases hok
        · rw [L2sHost.destLink, L2sHost.symlink_refused htaken hrefuse]
    · refine hfailed .eexist (fun hd => ?_) ?_
      · obtain ⟨d', hd', hnone, -⟩ := hfree.1 hd
        cases hd'
        exact htaken hnone
      · rw [L2sHost.destLink, L2sHost.symlink_taken htaken]

/-- **When a family of its own leaves everything else.** -/
theorem family_safe_iff (hn : NewNames h original intermediate final)
    (hstem : h.stemOfFile original = .ok stem)
    (hfinal : firstFinal (h.newIntermediate s stem) = final) (hp : s original = some (.file c))
    (hs : Arranged s s' original intermediate final none none (some (.file c))) :
    LinksSafely h s original c dest
      (match h.symlink s' final intermediate with
        | .ok s => h.originalLink s original intermediate dest
        | .error e => (s', .failed e)) ↔
      ¬ IsFinal s final ∧ FamilySpares h s dest original intermediate final c := by
  have hfdata : ∀ {s''} {o i}, Arranged s s'' original intermediate final o i (some (.file c)) →
      ∀ d, Holds h.follow s'' final d ↔ some c = some d := by
    intro s'' o i hs'' d
    rw [holds_iff_of_file hs''.final_eq, Option.some.injEq, eq_comm]
  rw [FamilySpares]
  cases hrefuse : h.refuses (.symlink final intermediate) with
  | some e =>
    have hmoved : s' original ≠ s original := by
      rw [hs.original_eq, hp]
      simp
    rw [L2sHost.symlink_refused hs.intermediate_eq hrefuse, if_pos (by simp)]
    simp only []
    rw [safe_failed_iff e hstem hmoved, hfinal, hs.kept_iff none (some c) hn hp]
    · simp only [not_holds_of_none hs.original_eq, false_or, and_assoc]
    · intro d
      simp only [not_holds_of_none hs.intermediate_eq, reduceCtorEq]
    · exact hfdata hs
    · simp
    · simp
  | none =>
    rw [L2sHost.symlink_free hs.intermediate_eq hrefuse, if_neg (by simp)]
    simp only [L2sHost.originalLink]
    have hs₂ := hs.setIntermediate hn (some (.link final))
    cases hrefuse' : h.refuses (.symlink intermediate original) with
    | some e =>
      have hne : e ≠ .eexist := fun he => h.symlink_ne_eexist _ _ (he ▸ hrefuse')
      have hmoved : Function.update s' intermediate (some (.link final)) original ≠ s original := by
        rw [hs₂.original_eq, hp]
        simp
      simp only [L2sHost.symlink_refused hs₂.original_eq hrefuse', if_neg hne]
      rw [if_pos (by simp), safe_failed_iff e hstem hmoved, hfinal,
        hs₂.kept_iff (some c) (some c) hn hp]
      · simp only [not_holds_of_none hs₂.original_eq, false_or, and_assoc]
      · intro d
        rw [hs₂.holds_made hn, Option.some.injEq, eq_comm]
      · exact hfdata hs₂
      · intro text htext
        cases htext
        rfl
      · simp
    | none =>
      simp only [L2sHost.symlink_free hs₂.original_eq hrefuse']
      rw [if_neg (by simp), destLink_safe_iff hn hstem hfinal hp
        (hs₂.setOriginal hn (some (.link intermediate)))]
      by_cases hd : DestFree h s dest intermediate final
      · simp only [hd, true_and, not_true, false_and, or_false, if_true]
      · simp only [hd, false_and, not_false_eq_true, true_and, false_or, if_false]

/-! ### A family that is there -/

/-- The store with the source made a link, unless the host refuses. -/
structure Joined (h : L2sHost D) (moved s' : HostStore D) (original intermediate : CStr) :
    Prop where
  made : h.refuses (.symlink intermediate original) = none →
    s' original = some (.link intermediate)
  lost : h.refuses (.symlink intermediate original) ≠ none → s' original = none
  rest : ∀ path, path ≠ original → s' path = moved path

/-- The names of the family are tried one after the other. -/
theorem exists_joined (h : L2sHost D) (intermediate : CStr) (hgone : s original = none)
    (dest : Except Errno CStr) :
    ∃ s', Joined h s s' original intermediate ∧
      h.reuse s original intermediate dest = (match dest with
        | .error e => (s', .failed e)
        | .ok dest =>
          match h.symlink s' intermediate dest with
          | .error e => (s', .failed e)
          | .ok s' => (s', .done)) := by
  have haccess : h.access s original = false := by rw [L2sHost.access, Reaches, hgone]
  cases hrefuse : h.refuses (.symlink intermediate original) with
  | none =>
    refine ⟨Function.update s original (some (.link intermediate)), ⟨fun _ => ?_, ?_, ?_⟩, ?_⟩
    · exact Function.update_self ..
    · simp [hrefuse]
    · exact fun path hne => Function.update_of_ne hne ..
    · simp only [L2sHost.reuse, haccess, L2sHost.symlink_free hgone hrefuse]
      rfl
  | some e =>
    refine ⟨s, ⟨by simp [hrefuse], fun _ => hgone, fun _ _ => rfl⟩, ?_⟩
    simp only [L2sHost.reuse, haccess, L2sHost.symlink_refused hgone hrefuse]
    rfl

section

variable {moved s₃ : HostStore D} (hn : NewNames h original intermediate final)
  (hgone : moved original = none) (hs : Joined h moved s' original intermediate)
  (hadd : ∀ path, s₃ path = s' path ∨ s' path = none ∧ s₃ path = some (.link intermediate))
include hn hgone hs hadd

/-- The links change nothing for the intermediate. -/
theorem Joined.holds_intermediate (d : D) :
    Holds h.follow s₃ intermediate d ↔ Holds h.follow moved intermediate d := by
  have hlink : ∀ path, s₃ path = s' path ∨ s' path = none ∧ ∃ t,
      s₃ path = some (.link t) ∧ h.follow path t = intermediate :=
    fun path => (hadd path).imp id fun hnew =>
      ⟨hnew.1, intermediate, hnew.2, hn.follow_intermediate path⟩
  rw [holds_of_added hlink]
  apply holds_of_added
  intro path
  by_cases hpath : path = original
  · subst hpath
    by_cases hok : h.refuses (.symlink intermediate path) = none
    · exact .inr ⟨hgone, intermediate, hs.made hok, hn.follow_intermediate _⟩
    · exact .inl ((hs.lost hok).trans hgone.symm)
  · exact .inl (hs.rest path hpath)

/-- The source leads to what the intermediate holds. -/
theorem Joined.holds_original (hsame : s₃ original = s' original) (d : D) :
    Holds h.follow s₃ original d ↔ h.refuses (.symlink intermediate original) = none ∧
      Holds h.follow moved intermediate d := by
  by_cases hok : h.refuses (.symlink intermediate original) = none
  · rw [holds_iff_of_link (hsame.trans (hs.made hok)), hn.follow_intermediate,
      hs.holds_intermediate hn hgone hadd]
    simp only [hok, true_and]
  · simp only [not_holds_of_none (hsame.trans (hs.lost hok)), hok, false_and]

end

/-- The destination is made after the source. -/
theorem joined_kept_iff (hn : NewNames h original intermediate final)
    (hp : s original = some (.file c))
    (hrest : ∀ path, path ≠ original → path ≠ final → s' path = s path)
    (hfinal : s' final = some (.file c)) (hdf : d ≠ final) (hdo : d ≠ original)
    (hnone : s d = none) :
    KeepsOthers h.follow original s (Function.update s' d (some (.link intermediate))) ∧
      DestKept h s (Function.update s' d (some (.link intermediate))) original c dest ↔
    MayBecome h s dest final (some (.file c)) (some c) ∧
      (Holds h.follow (Function.update s' d (some (.link intermediate))) original c ∨
        Alone h s dest original [final, d]) := by
  have hfinal₃ : Function.update s' d (some (.link intermediate)) final = some (.file c) := by
    rw [Function.update_of_ne hdf.symm, hfinal]
  have hfdata : ∀ d', Holds h.follow (Function.update s' d (some (.link intermediate))) final d' ↔
      some c = some d' := by
    intro d'
    rw [holds_iff_of_file hfinal₃, Option.some.injEq, eq_comm]
  rw [Link2symlink.kept_iff [final, d] hp]
  · simp only [List.forall_mem_cons, List.not_mem_nil, false_implies, implies_true, and_true,
      becomes_iff hfinal₃ hfdata, becomes_of_none hnone]
  · simp [hn.final_ne.symm, hdo.symm]
  · intro path hpath hne
    simp only [List.mem_cons, List.not_mem_nil, or_false, not_or] at hpath
    rw [Function.update_of_ne hpath.2, hrest path hne hpath.1]
  · intro path hpath text htext
    simp only [List.mem_cons, List.not_mem_nil, or_false] at hpath
    cases hpath with
    | inl hpath =>
      rw [hpath, hfinal₃] at htext
      cases htext
    | inr hpath =>
      rw [hpath, Function.update_self] at htext
      cases htext
      rw [hn.follow_intermediate]
      exact hn.intermediate_ne

/-- **When a family that is there takes the names and leaves everything else.** -/
theorem reuse_safe_iff (hn : NewNames h original intermediate final)
    (hstem : h.stemOfFile original = .ok stem)
    (hfinal : firstFinal (h.newIntermediate s stem) = final) (hp : s original = some (.file c))
    (hs : Arranged s s' original intermediate final none (s intermediate) (some (.file c)))
    (hthere : s intermediate ≠ none) :
    LinksSafely h s original c dest (h.reuse s' original intermediate dest) ↔
      ¬ IsFinal s final ∧ ReuseSpares h s dest s' original intermediate final c := by
  obtain ⟨s₂, hj, hreuse⟩ := exists_joined h intermediate hs.original_eq dest
  have hrest : ∀ path, path ≠ original → path ≠ final → s₂ path = s path := by
    intro path ho hf
    rw [hj.rest path ho]
    by_cases hi : path = intermediate
    · rw [hi, hs.intermediate_eq]
    · exact hs.rest path ho hi hf
  have hfinal₂ : s₂ final = some (.file c) := (hj.rest final hn.final_ne).trans hs.final_eq
  have hmoved : s₂ original ≠ s original := by
    rw [hp]
    by_cases hok : h.refuses (.symlink intermediate original) = none
    · simp [hj.made hok]
    · simp [hj.lost hok]
  -- The link at the destination fails.
  have hfailed : ∀ e, ¬ DestFree h s dest intermediate final →
      h.reuse s' original intermediate dest = (s₂, .failed e) →
      (LinksSafely h s original c dest (h.reuse s' original intermediate dest) ↔
        ¬ IsFinal s final ∧ ReuseSpares h s dest s' original intermediate final c) := by
    intro e hnot heq
    have hfdata : ∀ d, Holds h.follow s₂ final d ↔ some c = some d := by
      intro d
      rw [holds_iff_of_file hfinal₂, Option.some.injEq, eq_comm]
    rw [heq, safe_failed_iff e hstem hmoved, hfinal, Link2symlink.kept_iff [final] hp]
    · simp only [List.forall_mem_singleton, becomes_iff hfinal₂ hfdata, ReuseSpares, hnot,
        not_false_eq_true, true_and,
        hj.holds_original hn hs.original_eq (fun _ => .inl rfl) rfl]
    · simp [hn.final_ne.symm]
    · intro path hpath hne
      exact hrest path hne (by simpa using hpath)
    · intro path hpath text htext
      rw [List.mem_singleton.1 hpath, hfinal₂] at htext
      cases htext
  cases hdest : dest with
  | error e =>
    subst hdest
    exact hfailed e (fun ⟨d, hd, _⟩ => by cases hd) hreuse
  | ok d =>
    subst hdest
    by_cases htaken : s₂ d = none
    · cases hrefuse : h.refuses (.symlink intermediate d) with
      | none =>
        have hdf : d ≠ final := by
          rintro rfl
          rw [hfinal₂] at htaken
          cases htaken
        have hdo : d ≠ original := by
          rintro rfl
          rw [hj.made hrefuse] at htaken
          cases htaken
        have hnone : s d = none := (hrest d hdo hdf).symm.trans htaken
        have hdi : d ≠ intermediate := by
          rintro rfl
          exact hthere hnone
        have hfree : DestFree h s (.ok d) intermediate final := ⟨d, rfl, hdf, hdi, hnone, hrefuse⟩
        have hmade : Function.update s₂ d (some (.link intermediate)) original ≠ s original := by
          rw [Function.update_of_ne hdo.symm]
          exact hmoved
        have hadd : ∀ path, Function.update s₂ d (some (.link intermediate)) path = s₂ path ∨
            s₂ path = none ∧
              Function.update s₂ d (some (.link intermediate)) path =
                some (.link intermediate) := by
          intro path
          by_cases hpath : path = d
          · rw [hpath]
            exact .inr ⟨htaken, Function.update_self ..⟩
          · exact .inl (Function.update_of_ne hpath ..)
        have horiginal := hj.holds_original hn hs.original_eq hadd
          (Function.update_of_ne hdo.symm ..)
        have hd : Holds h.follow (Function.update s₂ d (some (.link intermediate))) d c ↔
            Holds h.follow s' intermediate c := by
          rw [holds_iff_of_link (Function.update_self ..), hn.follow_intermediate,
            hj.holds_intermediate hn hs.original_eq hadd]
        simp only [hreuse, L2sHost.symlink_free htaken hrefuse]
        rw [safe_done_iff hstem hmade rfl hnone, hfinal, horiginal, hd, ReuseSpares,
          joined_kept_iff hn hp hrest hfinal₂ hdf hdo hnone, horiginal]
        simp only [hfree, not_true, false_and, or_false]
        tauto
      | some e =>
        refine hfailed e (fun ⟨d', hd', _, _, _, hok⟩ => ?_) ?_
        · cases hd'
          rw [hrefuse] at hok
          cases hok
        · simp only [hreuse, L2sHost.symlink_refused htaken hrefuse]
    · refine hfailed .eexist (fun ⟨d', hd', hdf, _, hnone, _⟩ => ?_) ?_
      · cases hd'
        have hdo : d ≠ original := by
          rintro rfl
          rw [hp] at hnone
          cases hnone
        exact htaken ((hrest d hdo hdf).trans hnone)
      · simp only [hreuse, L2sHost.symlink_taken htaken]

/-! ### The whole call -/

/-- Once the data has moved. -/
theorem makeFamily_safe_iff (hn : NewNames h original intermediate final)
    (hstem : h.stemOfFile original = .ok stem)
    (hfinal : firstFinal (h.newIntermediate s stem) = final) (hp : s original = some (.file c))
    (hs : Arranged s s' original intermediate final none (s intermediate) (some (.file c)))
    (hrename : h.rename s original final = .ok s') :
    LinksSafely h s original c dest (h.makeFamily s' original intermediate final dest) ↔
      FirstLinkSpares h s dest original intermediate final c := by
  rw [FirstLinkSpares, hrename]
  simp only [L2sHost.makeFamily, L2sHost.l2sSymlink_eq (hn.entry _),
    L2sHost.l2sUnlink_eq (hn.entry _)]
  by_cases hthere : s intermediate = none
  · have hgives : ¬ (s intermediate = some .directory ∨
        s intermediate ≠ none ∧ h.refuses (.unlink intermediate) ≠ none) := by
      simp [hthere]
    rw [if_neg fun hall : s intermediate ≠ none ∧ h.Usable s' intermediate = true => hall.1 hthere,
      if_neg hgives, ← family_safe_iff hn hstem hfinal hp (hthere ▸ hs)]
    cases hrefuse : h.refuses (.symlink final intermediate) with
    | none => rw [L2sHost.symlink_free (hs.intermediate_eq.trans hthere) hrefuse]
    | some e =>
      have hne : e ≠ .eexist := fun he => h.symlink_ne_eexist _ _ (he ▸ hrefuse)
      rw [L2sHost.symlink_refused (hs.intermediate_eq.trans hthere) hrefuse]
      simp only [if_neg hne]
  · have hthere' : s' intermediate ≠ none := hs.intermediate_eq.trans_ne hthere
    rw [L2sHost.symlink_taken hthere']
    simp only [if_true]
    by_cases husable : h.Usable s' intermediate = true
    · rw [if_pos husable, if_pos ⟨hthere, husable⟩]
      exact reuse_safe_iff hn hstem hfinal hp hs hthere
    · rw [if_neg husable, if_neg fun hall => husable hall.2]
      by_cases hgives : s intermediate = some .directory ∨
          s intermediate ≠ none ∧ h.refuses (.unlink intermediate) ≠ none
      · have herror : ∃ e, h.unlink s' intermediate = .error e := by
          apply L2sHost.unlink_error
          rw [hs.intermediate_eq]
          exact .inr (hgives.imp id And.right)
        obtain ⟨e, he⟩ := herror
        have hmoved : s' original ≠ s original := by
          rw [hs.original_eq, hp]
          simp
        have hfdata : ∀ d, Holds h.follow s' final d ↔ some c = some d := by
          intro d
          rw [holds_iff_of_file hs.final_eq, Option.some.injEq, eq_comm]
        rw [if_pos hgives, he, L2sHost.symlink_taken hthere']
        simp only []
        rw [safe_failed_iff .eexist hstem hmoved, hfinal, Link2symlink.kept_iff [final] hp]
        · simp only [List.forall_mem_singleton, becomes_iff hs.final_eq hfdata,
            not_holds_of_none hs.original_eq, false_or]
        · simp [hn.final_ne.symm]
        · intro path hpath hne
          by_cases hi : path = intermediate
          · rw [hi, hs.intermediate_eq]
          · exact hs.rest path hne hi (by simpa using hpath)
        · intro path hpath text htext
          rw [List.mem_singleton.1 hpath, hs.final_eq] at htext
          cases htext
      · rw [if_neg hgives]
        obtain ⟨node, hnode⟩ := Option.ne_none_iff_exists'.1 hthere
        have hok : h.unlink s' intermediate = .ok (Function.update s' intermediate none) := by
          refine L2sHost.unlink_ok (hs.intermediate_eq.trans hnode) ?_ ?_
          · rintro rfl
            exact hgives (.inl hnode)
          · by_contra hrefuse
            exact hgives (.inr ⟨hthere, hrefuse⟩)
        rw [hok]
        exact family_safe_iff hn hstem hfinal hp (hs.setIntermediate hn none)

/-! A link of a file is never left to the kernel once its names are chosen. -/

theorem destLink_ne_kernel : (h.destLink s original intermediate dest).2 ≠ .kernel := by
  cases dest with
  | error e => simp [L2sHost.destLink]
  | ok d =>
    simp only [L2sHost.destLink]
    split <;> simp

theorem originalLink_ne_kernel : (h.originalLink s original intermediate dest).2 ≠ .kernel := by
  rw [L2sHost.originalLink]
  split
  · exact destLink_ne_kernel
  · split
    · exact destLink_ne_kernel
    · simp

theorem reuse_ne_kernel : (h.reuse s original intermediate dest).2 ≠ .kernel := by
  simp only [L2sHost.reuse]
  split
  · simp
  · split <;> simp

theorem makeFamily_ne_kernel : (h.makeFamily s original intermediate final dest).2 ≠ .kernel := by
  simp only [L2sHost.makeFamily]
  split
  · exact originalLink_ne_kernel
  · split_ifs
    · exact reuse_ne_kernel
    · split
      · exact originalLink_ne_kernel
      · simp
    · simp

theorem firstLink_ne_kernel : (h.firstLink s original stem dest).2 ≠ .kernel := by
  simp only [L2sHost.firstLink]
  split
  · exact makeFamily_ne_kernel
  · split_ifs
    · split
      · split <;> simp
      · simp
    · simp

theorem safe_unchanged (hp : s original = some (.file c)) (e : Errno) :
    LinksSafely h s original c dest (s, .failed e) where
  answered := by simp
  linked hdone := by cases hdone
  others := keepsOthers_refl
  destKept _ _ _ := ⟨fun _ => rfl, fun _ => .file hp⟩
  newFinal _ _ hmoved := absurd rfl hmoved

/-- A link that the kernel makes keeps everything. -/
theorem kernelLink_safe (hp : s original = some (.file c)) (hd : dest = .ok d) :
    LinksSafely h s original c dest
      (match h.link s original d with
        | .ok s => (s, .done)
        | .error e => (s, .failed e)) := by
  cases hnode : s d with
  | some node =>
    simp only [L2sHost.link, hp, hnode]
    exact safe_unchanged hp _
  | none =>
    cases hrefuse : h.refuses (.link original d) with
    | some e =>
      simp only [L2sHost.link, hp, hnode, hrefuse]
      exact safe_unchanged hp _
    | none =>
      have hne : original ≠ d := by
        rintro rfl
        rw [hp] at hnode
        cases hnode
      have hkept : Function.update s d (some (.file c)) original = some (.file c) := by
        rw [Function.update_of_ne hne, hp]
      simp only [L2sHost.link, hp, hnode, hrefuse]
      refine ⟨by simp, fun _ => ⟨d, hd, hnode, .file hkept, .file (Function.update_self ..)⟩,
        fun q _ x hx => ?_, fun d' hd' hsome => ?_, fun _ _ hmoved => ?_⟩
      · refine hx.of_changed fun y hdiff hy => ?_
        by_cases hyd : y = d
        · subst hyd
          exact absurd hnode hy.ne_none
        · exact absurd (Function.update_of_ne hyd ..) hdiff
      · rw [hd, Except.ok.injEq] at hd'
        rw [← hd'] at hsome
        exact absurd hnode hsome
      · exact absurd (hkept.trans hp.symm) hmoved

/-- The stem is found and the names of the family are chosen. -/
theorem firstLink_safe_iff (hp : s original = some (.file c)) (habs : IsAbsolute original)
    (hstem : h.stemOfFile original = .ok stem) :
    LinksSafely h s original c dest (h.firstLink s original stem dest) ↔
      FirstLinkSpares h s dest original (h.newIntermediate s stem)
        (firstFinal (h.newIntermediate s stem)) c := by
  have hn : NewNames h original (h.newIntermediate s stem)
      (firstFinal (h.newIntermediate s stem)) := by
    obtain ⟨n, -, -, heq, -⟩ := h.searchIntermediate_spec s stem (maxLinkSuffix - 2) 1
    rw [L2sHost.newIntermediate, heq]
    exact L2sHost.newNames habs hstem n
  simp only [L2sHost.firstLink, L2sHost.l2sRename_eq (hn.entry _) (hn.entry _)]
  by_cases hgood : s (firstFinal (h.newIntermediate s stem)) ≠ some .directory ∧
      h.refuses (.rename original (firstFinal (h.newIntermediate s stem))) = none
  · have hrename := L2sHost.rename_file hp hgood.1 hgood.2 hn.final_ne.symm
    rw [hrename]
    refine makeFamily_safe_iff hn hstem rfl hp ⟨?_, ?_, ?_, fun path ho _ hf => ?_⟩ hrename
    · rw [Function.update_of_ne hn.final_ne.symm, Function.update_self]
    · rw [Function.update_of_ne hn.final_ne_intermediate.symm,
        Function.update_of_ne hn.intermediate_ne]
    · rw [Function.update_self]
    · rw [Function.update_of_ne hf, Function.update_of_ne ho]
  · obtain ⟨e, hne, he⟩ := L2sHost.rename_file_error hp hgood
    rw [he, FirstLinkSpares, he]
    simp only [if_neg hne, iff_true]
    exact safe_unchanged hp e

/-- A file that is not left to the kernel gets its first link. -/
theorem linkCall_eq_firstLink (hodb : ¬ dest.toOption.any isGitOdbLinkDest = true)
    (hlong : ¬ h.RawDirectoryTooLong) (hp : s original = some (.file c))
    (hstem : h.stemOfFile original = .ok stem) :
    h.linkCall s (.ok original) dest = h.firstLink s original stem dest := by
  rw [L2sHost.linkCall, L2sHost.moveAndSymlinkPath, if_neg hodb]
  simp only [hlong, if_false, L2sHost.l2sLstat_some (L2sHost.l2sEntry_of_stemOfFile hstem _) hp,
    hstem]
  have hanswer : (h.firstLink s original stem dest).2 ≠ .kernel := firstLink_ne_kernel
  generalize h.firstLink s original stem dest = r at hanswer ⊢
  obtain ⟨s', answer⟩ := r
  cases answer with
  | kernel => exact absurd rfl hanswer
  | done => rfl
  | failed e => rfl

/-- Without a stem nothing is done. -/
theorem linkCall_of_no_stem (hodb : ¬ dest.toOption.any isGitOdbLinkDest = true)
    (hp : s original = some (.file c))
    (hnone : h.RawDirectoryTooLong ∨ ∀ stem, h.stemOfFile original ≠ .ok stem) :
    ∃ e, h.linkCall s (.ok original) dest = (s, .failed e) := by
  rw [L2sHost.linkCall, L2sHost.moveAndSymlinkPath, if_neg hodb]
  by_cases hlong : h.RawDirectoryTooLong
  · exact ⟨.enametoolong, by simp only [hlong, if_true]⟩
  have hstem := hnone.resolve_left hlong
  simp only [hlong, if_false]
  cases hentry : h.l2sEntry original with
  | error e => exact ⟨e, by simp only [L2sHost.l2sLstat, hentry, Except.bind]⟩
  | ok u =>
    simp only [L2sHost.l2sLstat_some hentry hp]
    cases hfile : h.stemOfFile original with
    | error e => exact ⟨e, rfl⟩
    | ok stem => exact absurd hfile (hstem stem)

/-- **A link of a file keeps everything else exactly when the condition holds.** -/
theorem linkCall_safe_iff (h : L2sHost D) (s : HostStore D) {original : CStr} {c : D}
    (hp : s original = some (.file c)) (habs : IsAbsolute original) (dest : Except Errno CStr) :
    LinksSafely h s original c dest (h.linkCall s (.ok original) dest) ↔
      h.LinkSpares s dest original c := by
  rw [L2sHost.LinkSpares]
  by_cases hodb : dest.toOption.any isGitOdbLinkDest = true
  · simp only [hodb, true_or, iff_true]
    cases dest with
    | error e => cases hodb
    | ok d =>
      rw [L2sHost.linkCall, L2sHost.moveAndSymlinkPath, if_pos hodb]
      exact kernelLink_safe hp rfl
  simp only [hodb, Bool.false_eq_true, false_or]
  by_cases hnone : h.RawDirectoryTooLong ∨ ∀ stem, h.stemOfFile original ≠ .ok stem
  · obtain ⟨e, he⟩ := linkCall_of_no_stem hodb hp hnone
    rw [he]
    refine iff_of_true (safe_unchanged hp e) (hnone.imp id fun hstem stem h => ?_)
    exact absurd h (hstem stem)
  · push Not at hnone
    obtain ⟨hlong, stem, hstem⟩ := hnone
    rw [linkCall_eq_firstLink hodb hlong hp hstem, firstLink_safe_iff hp habs hstem]
    simp only [hlong, hstem, Except.ok.injEq, forall_eq', false_or]

/-- New names and a host that refuses nothing are enough. -/
theorem firstLinkSpares_of_free {intermediate final : CStr} (hi : s intermediate = none)
    (hf : s final = none) (hg : s (withLinkCount final 1) = none)
    (hok : ∀ call, h.refuses call = none) :
    FirstLinkSpares h s dest original intermediate final c := by
  have hnew : ∀ {path node data}, s path = none → MayBecome h s dest path node data :=
    fun hpath => ⟨fun _ hd => absurd hd (not_holds_of_none hpath),
      fun _ hsome => absurd hpath hsome⟩
  rw [FirstLinkSpares]
  split
  · trivial
  · refine ⟨fun ⟨_, _, _, _, hfile⟩ => by simp [hf] at hfile, ?_⟩
    rw [if_neg (fun hall => hall.1 hi), if_neg (by simp [hi]), FamilySpares, if_neg (by simp [hok]),
      if_neg (by simp [hok])]
    split_ifs
    · exact ⟨hnew hf, hnew hi⟩
    · rw [UncountSpares]
      split_ifs with _ hunlink hsymlink
      · exact absurd (hok _) hunlink
      · exact absurd (hok _) hsymlink
      · exact ⟨hnew hf, hnew hg, hnew hi⟩
      · exact ⟨hnew hf, hnew hi⟩

end

/-! ### Concrete stores -/

/-- A host that refuses nothing. -/
def plainHost (dir : Option CStr) (hdir : ∀ d, dir = some d → d ≠ [] → IsAbsolute d) :
    L2sHost ℕ where
  l2sDir := dir
  openDirectory := .ok ()
  refuses _ := none
  renameDirectory _ _ _ := .error .eisdir
  follow _ text := text
  l2sDir_absolute := hdir
  rename_ne_enoent := noRefusal_ne .enoent
  symlink_ne_eexist := noRefusal_ne .eexist
  follow_l2s _ _ _ _ := rfl

/-- One file. -/
def oneFile : HostStore ℕ := fun path => if path = str "/x/a" then some (.file 0) else none

/-- The first link of the only file. -/
theorem linkCall_oneFile :
    LinksSafely (plainHost none (by simp)) oneFile (str "/x/a") 0 (.ok (str "/x/b"))
      ((plainHost none (by simp)).linkCall oneFile (.ok (str "/x/a")) (.ok (str "/x/b"))) := by
  refine (linkCall_safe_iff _ oneFile (by decide +kernel) (by decide) _).2
    (.inr (.inr fun stem hstem => ?_))
  have hstem' : stem = str "/x/.l2s.a" := by
    have heq : (plainHost none (by simp)).stemOfFile (str "/x/a") = .ok (str "/x/.l2s.a") := by
      decide +kernel
    rw [heq, Except.ok.injEq] at hstem
    exact hstem.symm
  subst hstem'
  have hi : (plainHost none (by simp)).newIntermediate oneFile (str "/x/.l2s.a") =
      str "/x/.l2s.a0001" := by decide +kernel
  rw [hi]
  exact firstLinkSpares_of_free (by decide +kernel) (by decide +kernel) (by decide +kernel)
    fun _ => rfl

/-- The backing directory of `crowded`. -/
def backedHost : L2sHost ℕ :=
  plainHost (some (str "/l")) fun d hd _ => by
    cases hd
    decide

/-- The intermediate of the family with this number. -/
def crowdedIntermediate (n : ℕ) : CStr := numbered (str "/l/.l2s.a") n

/-- A file `a`, and 999 families of other files `a`.  The last of them has a name
`/y/a`. -/
def crowded : HostStore ℕ := fun path =>
  if path = str "/x/a" then some (.file 0)
  else if path = str "/y/a" then some (.link (crowdedIntermediate 999))
  else
    match (List.range' 1 999).find? fun n => path = crowdedIntermediate n with
    | some n => some (.link (crowdedIntermediate n ++ str ".0002"))
    | none =>
      ((List.range' 1 999).find? fun n => path = crowdedIntermediate n ++ str ".0002").map .file

theorem crowded_stem : backedHost.stemOfFile (str "/x/a") = .ok (str "/l/.l2s.a") := by
  decide +kernel

theorem crowdedIntermediate_eq (n : ℕ) : crowdedIntermediate n = str "/l/.l2s.a" ++ fourDigits n :=
  (L2sHost.isStem_of_stemOfFile (by decide) crowded_stem).numbered_eq n

@[simp] theorem length_crowdedIntermediate (n : ℕ) : (crowdedIntermediate n).length = 13 := by
  rw [crowdedIntermediate_eq]
  rfl

theorem crowded_intermediate {n : ℕ} (hge : 1 ≤ n) (hle : n ≤ 999) :
    crowded (crowdedIntermediate n) = some (.link (crowdedIntermediate n ++ str ".0002")) := by
  have hne : ∀ path : CStr, path.length = 4 → crowdedIntermediate n ≠ path := by
    intro path hlen heq
    rw [← heq, length_crowdedIntermediate] at hlen
    omega
  rw [crowded, if_neg (hne _ rfl), if_neg (hne _ rfl)]
  have hmem : n ∈ List.range' 1 999 := List.mem_range'_1.2 ⟨hge, by omega⟩
  cases hfind : (List.range' 1 999).find? fun m =>
      crowdedIntermediate n = crowdedIntermediate m with
  | none => exact absurd (decide_eq_true rfl) (List.find?_eq_none.1 hfind n hmem)
  | some m =>
    have hsame : crowdedIntermediate n = crowdedIntermediate m := by
      have hfound := List.find?_some hfind
      simpa using hfound
    simp only [← hsame]

theorem crowded_final : ∃ m, crowded (crowdedIntermediate 999 ++ str ".0002") = some (.file m) := by
  have hlength : (crowdedIntermediate 999 ++ str ".0002").length = 18 := by
    rw [List.length_append, length_crowdedIntermediate]
    rfl
  have hne : ∀ path : CStr, path.length = 4 → crowdedIntermediate 999 ++ str ".0002" ≠ path := by
    intro path hlen heq
    rw [← heq, hlength] at hlen
    omega
  rw [crowded, if_neg (hne _ rfl), if_neg (hne _ rfl)]
  have hnone : ((List.range' 1 999).find? fun m =>
      crowdedIntermediate 999 ++ str ".0002" = crowdedIntermediate m) = none := by
    refine List.find?_eq_none.2 fun m _ hsame => ?_
    have hlen := congrArg List.length (of_decide_eq_true hsame)
    rw [hlength, length_crowdedIntermediate] at hlen
    omega
  rw [hnone]
  cases hfind : (List.range' 1 999).find? fun m =>
      crowdedIntermediate 999 ++ str ".0002" = crowdedIntermediate m ++ str ".0002" with
  | none =>
    have hmem : 999 ∈ List.range' 1 999 := List.mem_range'_1.2 ⟨by omega, by omega⟩
    exact absurd (decide_eq_true rfl) (List.find?_eq_none.1 hfind 999 hmem)
  | some m => exact ⟨m, rfl⟩

/-- No number is free, and the search ends with the last. -/
theorem crowded_newIntermediate :
    backedHost.newIntermediate crowded (str "/l/.l2s.a") = crowdedIntermediate 999 := by
  obtain ⟨n, hge, hle, heq, hlast⟩ :=
    backedHost.searchIntermediate_spec crowded (str "/l/.l2s.a") (maxLinkSuffix - 2) 1
  have hthere := crowded_intermediate hge (show n ≤ 999 from hle)
  have hok : (backedHost.l2sLstat crowded (numbered (str "/l/.l2s.a") n)).isOk = true := by
    have hentry := L2sHost.l2sEntry_of_stemOfFile crowded_stem (numbered (str "/l/.l2s.a") n)
    rw [L2sHost.l2sLstat_some hentry hthere]
    rfl
  have hn : n = 999 := (hlast hok).1
  rw [L2sHost.newIntermediate, heq, hn]
  rfl

/-- **The thousandth file of a name takes the data of the last family.** -/
theorem crowded_link_unsafe :
    crowded (str "/x/a") = some (.file 0) ∧
      ¬ LinksSafely backedHost crowded (str "/x/a") 0 (.ok (str "/x/b"))
        (backedHost.linkCall crowded (.ok (str "/x/a")) (.ok (str "/x/b"))) := by
  have hp : crowded (str "/x/a") = some (.file 0) := rfl
  refine ⟨hp, fun hsafe => ?_⟩
  have hlong : ¬ backedHost.RawDirectoryTooLong := by
    rintro ⟨value, hvalue, hlen⟩
    cases hvalue
    exact absurd hlen (by decide)
  rw [linkCall_eq_firstLink (by decide) hlong hp crowded_stem,
    firstLink_safe_iff hp (by decide) crowded_stem, crowded_newIntermediate] at hsafe
  have hfinal : firstFinal (crowdedIntermediate 999) = crowdedIntermediate 999 ++ str ".0002" := by
    decide +kernel
  obtain ⟨m, hm⟩ := crowded_final
  have hne : str "/x/a" ≠ crowdedIntermediate 999 ++ str ".0002" := by
    intro heq
    have hlen := congrArg List.length heq
    rw [List.length_append, length_crowdedIntermediate] at hlen
    exact absurd hlen (by decide)
  have hrename := L2sHost.rename_file (h := backedHost) hp (by simp [hm]) rfl hne
  rw [hfinal, FirstLinkSpares, hrename] at hsafe
  exact hsafe.1 ⟨crowdedIntermediate 999, m, by decide +kernel,
    crowded_intermediate (by omega) (by omega), hm⟩

end NeoProot.Link2symlink
