import NeoProot.Extension.LinkErrors

/-!
# Names after a copy

`materialize_executable` takes a link away before the data is copied to its name, and
lets the family of the link do without it.  `materialize_keeps_iff` says which errors
leave every name as it was, and `errors_keep_iff` gathers the functions.
-/

namespace NeoProot.Link2symlink
open LinkStore

/-! ### A copy in place of a link -/

/-- The copy comes to its end. -/
def CopyCalls.Completes (calls : CopyCalls) (data : FileData) : Prop :=
  calls.opens = none ∧ (calls.copyFrom 0 data.bytes).2 = true ∧ calls.chmods = none

/-- What a copy that does not come to its end leaves in the new file. -/
def CopyCalls.left (calls : CopyCalls) (data : FileData) : FileData :=
  ⟨if calls.opens = none then (calls.copyFrom 0 data.bytes).1 else [], calls.umasked data.mode⟩

section

variable {D : Type} (h : L2sHost D) (s : HostStore D) (path : CStr)

/-- No other visible link leads to the intermediate. -/
def OnlyName (intermediate : CStr) : Prop :=
  ∀ q t, isL2sInternalPath q = false → q ≠ path → s q = some (.link t) →
    h.follow q t ≠ intermediate

/-- The family does without the name: nothing has moved, or everything follows, or the
name was its only one. -/
def RetireSpares (intermediate : CStr) (n : ℕ) : Prop :=
  OnlyName h s path intermediate ∨
    if n = 1 then
      h.refuses (.unlink intermediate) ≠ none ∧ h.refuses (.unlink (finalOf intermediate 1)) ≠ none
    else
      ¬ h.Renames s (finalOf intermediate n) (finalOf intermediate (n - 1)) ∨
        h.Relinks intermediate (n - 1)

end

section

variable (h : L2sHost FileData) (later : Refusals) (calls : CopyCalls) (s : HostStore FileData)
  (path : CStr)

/-- **What `materialize_executable` must leave.** -/
structure MaterializeKeeps : Prop where
  names : NamesKept h s (h.materializeExecutable later calls s path).1
    ((h.materializeExecutable later calls s path).2 = false)
  /-- A copy has the bytes and the bits of the final file. -/
  whole : (h.materializeExecutable later calls s path).2 = true → ∀ intermediate final data,
    s path = some (.link intermediate) → s (h.hostName intermediate) = some (.link final) →
    s (h.hostName final) = some (.file data) →
    (h.materializeExecutable later calls s path).1 path = some (.file data)

/-- The link stays if it cannot be removed; otherwise the copy must come to its end, or
leave all the data behind. -/
def CopySpares (intermediate : CStr) (n : ℕ) (data : FileData) : Prop :=
  (h.refuses (.unlink path) ≠ none → later.refuses (.unlink path) ≠ none) ∧
    (h.refuses (.unlink path) = none →
      h.refuses (.create path) = none ∧
        (calls.Completes data → RetireSpares h s path intermediate n) ∧
        (¬ calls.Completes data → later.refuses (.unlink path) ≠ none ∧ calls.left data = data))

/-- The calls of `materialize_executable` that fail do no harm. -/
def MaterializeSpares : Prop :=
  ∀ intermediate n data, Reads h s path intermediate → IsFamily s intermediate n data →
    CopySpares h later calls s path intermediate n data

end

section

variable {D : Type} {h : L2sHost D} {s s' : HostStore D} {path intermediate : CStr} {n : ℕ} {c : D}

theorem dropped_of_refused (hrefuse : h.refuses (.unlink path) ≠ none) : h.dropped s path = s := by
  obtain ⟨e, he⟩ := L2sHost.unlink_error (s := s) (.inr (.inr hrefuse))
  rw [L2sHost.dropped, he]

theorem dropped_of_none (hnone : s path = none) : h.dropped s path = s := by
  obtain ⟨e, he⟩ := L2sHost.unlink_error (h := h) (.inl hnone)
  rw [L2sHost.dropped, he]

theorem dropped_of_ok {node : Node CStr D} (hnode : s path = some node) (hne : node ≠ .directory)
    (hok : h.refuses (.unlink path) = none) : h.dropped s path = Function.update s path none := by
  rw [L2sHost.dropped, L2sHost.unlink_ok hnode hne hok]

theorem l2sDropped_eq (hentry : h.l2sEntry path = .ok ()) :
    h.l2sDropped s path = h.dropped s path := by
  rw [L2sHost.l2sDropped, L2sHost.l2sUnlink_eq hentry, L2sHost.dropped]

theorem dropped_other {other : CStr} (hne : other ≠ path) : h.dropped s path other = s other := by
  rw [L2sHost.dropped]
  cases hunlink : h.unlink s path with
  | error e => rfl
  | ok s' => exact L2sHost.unlink_other hunlink hne

/-- A change of a visible name is none of the family. -/
theorem IsFamily.of_visible (hf : IsFamily s intermediate n c)
    (hin : isL2sInternalPath intermediate = true) (hpath : isL2sInternalPath path = false)
    (hsame : ∀ q, q ≠ path → s' q = s q) : IsFamily s' intermediate n c := by
  refine ⟨hf.count, ?_, ?_⟩
  · rw [hsame _ (ne_of_visible hpath hin).symm, hf.linked]
  · rw [hsame _ (ne_of_visible hpath (isL2sInternalPath_finalOf hin n)).symm, hf.data]

/-- What a copy in place of a link must keep: the data behind the name, and the
intermediate for its other names. -/
theorem Reads.readable_iff (hr : Reads h s path intermediate) (hf : IsFamily s intermediate n c)
    (ht : Tidy h s) (hpath : isL2sInternalPath path = false) (hsame : ChangedIn intermediate s s')
    (hvisible : ∀ q, isL2sInternalPath q = false → q ≠ path → s' q = s q) :
    Readable h s s' ↔ Holds h.follow s' path c ∧
      (OnlyName h s path intermediate ∨ Holds h.follow s' intermediate c) := by
  have hnamed := hr.named ht hpath
  have hi := hr.isIntermediate ht hpath
  have hheld := hf.holds (h := h) hi.isInternal hi.absolute
  have hpathHeld : Holds h.follow s path c := by
    rw [holds_iff_of_link hr.link, follow_internal hi.isInternal hi.absolute]
    exact hheld
  rw [readable_iff_of_one ht hr.isInternal hpath hsame hvisible
    (fun m hm => ht.apart _ _ hnamed hm m rfl) fun _ x hx => ht.apart _ _ hx hnamed]
  constructor
  · rintro ⟨hone, hothers⟩
    refine ⟨hone c hpathHeld, or_iff_not_imp_left.2 fun hsome => ?_⟩
    rw [OnlyName] at hsome
    push Not at hsome
    obtain ⟨q, t, hq, hqp, hlink, hfollow⟩ := hsome
    exact hothers q t hq hqp hlink hfollow c hheld
  · rintro ⟨hone, hothers⟩
    refine ⟨fun d hd => hpathHeld.unique hd ▸ hone, fun q t hq hqp hlink hfollow d hd => ?_⟩
    cases hothers with
    | inl honly => exact absurd hfollow (honly q t hq hqp hlink)
    | inr hstill => exact hheld.unique hd ▸ hstill

/-- Where the family is left alone, it is the data behind the name. -/
theorem Reads.readable_iff_of_other (hr : Reads h s path intermediate)
    (hf : IsFamily s intermediate n c) (ht : Tidy h s) (hpath : isL2sInternalPath path = false)
    (hsame : ∀ q, q ≠ path → s' q = s q) : Readable h s s' ↔ Holds h.follow s' path c := by
  have hi := hr.isIntermediate ht hpath
  rw [hr.readable_iff hf ht hpath (fun q hq _ _ => hsame q ?_) fun q _ hqp => hsame q hqp]
  · refine and_iff_left (.inr ?_)
    exact (hf.of_visible hr.isInternal hpath hsame).holds hi.isInternal hi.absolute
  · rintro rfl
    rw [hpath] at hq
    cases hq

/-- A link that leaves a family of several takes the count down. -/
theorem retire_eq_recount (hi : IsIntermediate h intermediate) (hf : IsFamily s intermediate n c)
    (hn : 1 < n) :
    h.retire s intermediate (finalOf intermediate n) =
      (h.recount s intermediate (finalOf intermediate n) (finalOf intermediate (n - 1))).1 := by
  have hentry := hi.entry_finalOf
  simp only [L2sHost.retire, parse_finalOf (isPrefixOf_of_isL2sInternalPath hi.isInternal) hf.count,
    if_neg (show n ≠ 0 by omega), if_pos (show 0 < n - 1 by omega), withLinkCount_finalOf,
    L2sHost.recount]
  cases hmove : h.l2sRename s (finalOf intermediate n) (finalOf intermediate (n - 1)) with
  | error e => rfl
  | ok s₁ =>
    rw [L2sHost.l2sRename_eq (hentry _) (hentry _)] at hmove
    have hthere : s₁ intermediate ≠ none := by
      rw [L2sHost.rename_other hf.data hmove (finalOf_ne _ _).symm (finalOf_ne _ _).symm, hf.linked]
      exact Option.some_ne_none _
    simp only [L2sHost.l2sDropped, L2sHost.l2sUnlink_eq hi.entry, L2sHost.l2sSymlink_eq hi.entry]
    cases hunlink : h.unlink s₁ intermediate with
    | error e => simp only [L2sHost.symlink_taken hthere]
    | ok s₂ =>
      cases hsymlink : h.symlink s₂ (finalOf intermediate (n - 1)) intermediate with
      | error e => simp only [hsymlink]
      | ok s₃ => simp only [hsymlink]

theorem retire_eq_dropped (hi : IsIntermediate h intermediate) :
    h.retire s intermediate (finalOf intermediate 1) =
      h.dropped (h.dropped s intermediate) (finalOf intermediate 1) := by
  have hentry := hi.entry_finalOf 1
  simp only [L2sHost.retire, parse_finalOf (isPrefixOf_of_isL2sInternalPath hi.isInternal)
    (show 1 ≤ maxLinkCount by decide), if_neg (show (1 : ℕ) ≠ 0 by decide),
    if_neg (show ¬ 0 < 1 - 1 by decide), l2sDropped_eq hi.entry, l2sDropped_eq hentry]

theorem retire_visible (hi : IsIntermediate h intermediate) (hf : IsFamily s intermediate n c)
    (hn : 1 ≤ n) {q : CStr} (hq : isL2sInternalPath q = false) :
    h.retire s intermediate (finalOf intermediate n) q = s q := by
  by_cases hone : n = 1
  · subst hone
    rw [retire_eq_dropped hi,
      dropped_other (ne_of_visible hq (isL2sInternalPath_finalOf hi.isInternal 1)),
      dropped_other (ne_of_visible hq hi.isInternal)]
  · rw [retire_eq_recount hi hf (by omega)]
    exact (recount_spec hi hf ((Nat.sub_le n 1).trans hf.count) (by omega)).only.visible
      hi.isInternal hq

theorem retire_changedIn (hi : IsIntermediate h intermediate) (hf : IsFamily s intermediate n c)
    (hn : 1 ≤ n) : ChangedIn intermediate s (h.retire s intermediate (finalOf intermediate n)) := by
  by_cases hone : n = 1
  · subst hone
    intro q _ hqi hqf
    rw [retire_eq_dropped hi, dropped_other (hqf 1), dropped_other hqi]
  · rw [retire_eq_recount hi hf (by omega)]
    exact (recount_spec hi hf ((Nat.sub_le n 1).trans hf.count) (by omega)).only.changedIn

/-- What the intermediate holds once a link has left its family. -/
theorem retire_holds_iff (hi : IsIntermediate h intermediate) (hf : IsFamily s intermediate n c)
    (hn : 1 ≤ n) :
    Holds h.follow (h.retire s intermediate (finalOf intermediate n)) intermediate c ↔
      if n = 1 then
        h.refuses (.unlink intermediate) ≠ none ∧
          h.refuses (.unlink (finalOf intermediate 1)) ≠ none
      else
        ¬ h.Renames s (finalOf intermediate n) (finalOf intermediate (n - 1)) ∨
          h.Relinks intermediate (n - 1) := by
  by_cases hone : n = 1
  case neg =>
    rw [retire_eq_recount hi hf (by omega), if_neg hone]
    exact (recount_spec hi hf ((Nat.sub_le n 1).trans hf.count) (by omega)).holds_iff
  subst hone
  rw [retire_eq_dropped hi, if_pos rfl]
  by_cases hunlink : h.refuses (.unlink intermediate) = none
  · refine iff_of_false (Dangling.not_holds (.inl ?_) hi.isInternal hi.absolute)
      fun hboth => hboth.1 hunlink
    rw [dropped_other (finalOf_ne _ _).symm, dropped_of_ok hf.linked (by simp) hunlink,
      Function.update_self]
  rw [dropped_of_refused hunlink]
  by_cases hfinal : h.refuses (.unlink (finalOf intermediate 1)) = none
  · refine iff_of_false (Dangling.not_holds (.inr ⟨1, ?_, ?_⟩) hi.isInternal hi.absolute)
      fun hboth => hboth.2 hfinal
    · rw [dropped_other (finalOf_ne _ _).symm, hf.linked]
    · rw [dropped_of_ok hf.data (by simp) hfinal, Function.update_self]
  · rw [dropped_of_refused hfinal]
    exact iff_of_true (hf.holds hi.isInternal hi.absolute) ⟨hunlink, hfinal⟩

/-- The copy is made: what becomes of the other names of the family. -/
theorem Reads.retire_readable_iff (hr : Reads h s path intermediate)
    (hf : IsFamily s intermediate n c) (ht : Tidy h s) (hpath : isL2sInternalPath path = false)
    (hsame : ∀ q, q ≠ path → s' q = s q) (hcopy : s' path = some (.file c)) :
    Readable h s (h.retire s' intermediate (finalOf intermediate n)) ↔
      RetireSpares h s path intermediate n := by
  have hi := hr.isIntermediate ht hpath
  have hn := hf.pos (hr.named ht hpath) ht
  have hf' := hf.of_visible hr.isInternal hpath hsame
  have hne : ∀ q, isL2sInternalPath q = true → q ≠ path := fun _ hq =>
    (ne_of_visible hpath hq).symm
  have hchanged : ChangedIn intermediate s (h.retire s' intermediate (finalOf intermediate n)) :=
    ChangedIn.trans (fun q hq _ _ => hsame q (hne q hq)) (retire_changedIn hi hf' hn)
  have hvisible : ∀ q, isL2sInternalPath q = false → q ≠ path →
      h.retire s' intermediate (finalOf intermediate n) q = s q :=
    fun q hq hqp => (retire_visible hi hf' hn hq).trans (hsame q hqp)
  have hheld : Holds h.follow (h.retire s' intermediate (finalOf intermediate n)) path c :=
    .file ((retire_visible hi hf' hn hpath).trans hcopy)
  rw [hr.readable_iff hf ht hpath hchanged hvisible, and_iff_right hheld,
    retire_holds_iff hi hf' hn, RetireSpares, L2sHost.Renames, L2sHost.Renames,
    hsame _ (hne _ (isL2sInternalPath_finalOf hr.isInternal (n - 1)))]

end

section

variable {h : L2sHost FileData} {later : Refusals} {calls : CopyCalls} {s s' : HostStore FileData}
  {path intermediate : CStr} {n : ℕ} {data : FileData}

/-- The final file is where its intermediate is. -/
theorem hostName_finalOf (hhost : h.hostName intermediate = intermediate)
    (hshort : intermediate.length + 5 < pathMax - 1) (n : ℕ) :
    h.hostName (finalOf intermediate n) = finalOf intermediate n := by
  rw [L2sHost.hostName] at hhost ⊢
  cases hdir : h.getL2sDirectory with
  | none => rfl
  | some directory =>
    simp only [hdir] at hhost ⊢
    have huncut : (directory ++ ['/'] ++ getFilename intermediate).length ≤ pathMax - 1 := by
      by_contra hlong
      have hlen := congrArg List.length hhost
      rw [List.length_take] at hlen
      omega
    rw [List.take_of_length_le huncut] at hhost
    rw [getFilename_finalOf, ← List.append_assoc, hhost, List.take_of_length_le]
    · rfl
    · rw [List.length_append, List.length_cons, length_fourDigits]
      omega

variable (later calls) in
/-- A family that is found is copied from. -/
theorem materialize_eq (hr : Reads h s path intermediate) (hf : IsFamily s intermediate n data)
    (ht : Tidy h s) (hpath : isL2sInternalPath path = false) :
    h.materializeExecutable later calls s path =
      h.copyInPlace later calls s path intermediate (finalOf intermediate n) data := by
  have hhost := ht.text_hosted path _ hpath hr.link hr.isInternal
  have hfinal : (finalOf intermediate n).length < pathMax - 1 := by
    rw [length_finalOf]
    exact hr.short
  have hentry := (hr.isIntermediate ht hpath).entry_finalOf n
  simp only [L2sHost.materializeExecutable, hpath, Bool.false_eq_true, if_false, hr.myReadlink,
    if_pos hr.isInternal, hhost, L2sHost.myReadlink_link hr.entry_intermediate hf.linked hfinal,
    hostName_finalOf hhost hr.short, L2sHost.l2sLstat_some hentry hf.data]

/-- Anything else is left alone. -/
theorem materialize_unfounded (ht : Tidy h s) (hpath : isL2sInternalPath path = false)
    (hno : ∀ intermediate n data, Reads h s path intermediate →
      ¬ IsFamily s intermediate n data) :
    h.materializeExecutable later calls s path = (s, false) := by
  simp only [L2sHost.materializeExecutable, hpath, Bool.false_eq_true, if_false]
  cases hread : h.myReadlink s path with
  | error e => rfl
  | ok text =>
  by_cases hin : isL2sInternalPath text = true
  case neg => simp only [hin, Bool.false_eq_true, if_false]
  have hhost := ht.text_hosted path text hpath (exists_of_myReadlink hread).2.1 hin
  simp only [hin, if_true, hhost]
  cases hfinal : h.myReadlink s text with
  | error e => rfl
  | ok final =>
  obtain ⟨hr, n, rfl, -, -, hdata⟩ := ht.exists_reads hpath hread hin hfinal
  have hgone : s (finalOf text n) = none :=
    hdata.resolve_right fun hfamily => hfamily.elim fun d => hno text n d hr
  have hentry := (hr.isIntermediate ht hpath).entry_finalOf n
  simp only [hostName_finalOf hhost hr.short, L2sHost.l2sLstat_none hentry hgone]

/-- A copy that is given up leaves its file if it cannot be removed. -/
theorem givenUp_readable_iff (hr : Reads h s path intermediate)
    (hf : IsFamily s intermediate n data) (ht : Tidy h s) (hpath : isL2sInternalPath path = false)
    (left : FileData) :
    Readable h s ((h.refusing later).dropped
        (Function.update s path (some (.file left))) path) ↔
      later.refuses (.unlink path) ≠ none ∧ left = data := by
  by_cases hunlink : later.refuses (.unlink path) = none
  · rw [dropped_of_ok (h := h.refusing later) (Function.update_self ..) (by simp) hunlink,
      Function.update_idem,
      hr.readable_iff_of_other hf ht hpath fun q hq => Function.update_of_ne hq ..]
    exact iff_of_false (not_holds_of_none (Function.update_self ..)) fun hboth => hboth.1 hunlink
  · rw [dropped_of_refused (h := h.refusing later) hunlink,
      hr.readable_iff_of_other hf ht hpath fun q hq => Function.update_of_ne hq ..,
      holds_iff_of_file (Function.update_self ..), and_iff_right hunlink]
    exact eq_comm

/-! How a copy ends. -/

theorem copyInPlace_kept {final text : CStr} (hlink : s path = some (.link text))
    (hunlink : h.refuses (.unlink path) ≠ none) :
    h.copyInPlace later calls s path intermediate final data =
      ((h.refusing later).dropped s path, false) := by
  simp only [L2sHost.copyInPlace, dropped_of_refused hunlink, L2sHost.create, hlink]

theorem copyInPlace_uncreated {final text : CStr} (hlink : s path = some (.link text))
    (hunlink : h.refuses (.unlink path) = none) (hcreate : h.refuses (.create path) ≠ none) :
    h.copyInPlace later calls s path intermediate final data =
      (Function.update s path none, false) := by
  obtain ⟨e, he⟩ := Option.ne_none_iff_exists'.1 hcreate
  simp only [L2sHost.copyInPlace, dropped_of_ok hlink (by simp) hunlink, L2sHost.create,
    Function.update_self, he, dropped_of_none (Function.update_self ..)]

theorem copyInPlace_complete {final text : CStr} (hlink : s path = some (.link text))
    (hunlink : h.refuses (.unlink path) = none) (hcreate : h.refuses (.create path) = none)
    (hentry : h.l2sEntry final = .ok ()) (hall : calls.Completes data) :
    h.copyInPlace later calls s path intermediate final data =
      (h.retire (Function.update s path (some (.file data))) intermediate final, true) := by
  have hwhole := calls.copyFrom_whole hall.2.1
  simp only [L2sHost.copyInPlace, dropped_of_ok hlink (by simp) hunlink, L2sHost.create,
    Function.update_self, hcreate, Function.update_idem, hentry, Except.isOk, Except.toBool,
    hall.1, hall.2.1, hall.2.2, hwhole, and_self, if_true]

theorem copyInPlace_givenUp {final text : CStr} (hlink : s path = some (.link text))
    (hunlink : h.refuses (.unlink path) = none) (hcreate : h.refuses (.create path) = none)
    (hentry : h.l2sEntry final = .ok ()) (hnot : ¬ calls.Completes data) :
    h.copyInPlace later calls s path intermediate final data =
      ((h.refusing later).dropped (Function.update s path (some (.file (calls.left data)))) path,
        false) := by
  rw [CopyCalls.Completes] at hnot
  simp only [L2sHost.copyInPlace, dropped_of_ok hlink (by simp) hunlink, L2sHost.create,
    Function.update_self, hcreate, Function.update_idem, hentry, Except.isOk, Except.toBool,
    CopyCalls.left, true_and]
  by_cases hopens : calls.opens = none
  · simp only [hopens, true_and] at hnot
    simp only [hopens, if_true, hnot, if_false]
  · simp only [hopens, if_false]

/-- **When a failing call of `materialize_executable` harms no name.** -/
theorem materialize_keeps_iff (ht : Tidy h s) (hpath : isL2sInternalPath path = false) :
    MaterializeKeeps h later calls s path ↔ MaterializeSpares h later calls s path := by
  by_cases hno : ∀ intermediate n data, Reads h s path intermediate →
      ¬ IsFamily s intermediate n data
  · refine iff_of_true ?_ fun intermediate n data hr hf => absurd hf (hno intermediate n data hr)
    constructor
    · rw [materialize_unfounded ht hpath hno]
      exact namesKept_refl
    · rw [materialize_unfounded ht hpath hno]
      intro htrue
      cases htrue
  push Not at hno
  obtain ⟨intermediate, n, data, hr, hf⟩ := hno
  have hi := hr.isIntermediate ht hpath
  have hpos := hf.pos (hr.named ht hpath) ht
  have hentry := (hr.isIntermediate ht hpath).entry_finalOf n
  have hmade : ∀ {s' : HostStore FileData} {done : Bool},
      h.materializeExecutable later calls s path = (s', done) →
      (∀ q, isL2sInternalPath q = false → q ≠ path → s' q = s q) →
      (done = true → s' path = some (.file data)) →
      (MaterializeKeeps h later calls s path ↔ Readable h s s') := by
    intro s' done heq hvisible hcopy
    constructor
    · intro hkeeps
      have hread := hkeeps.names.readable
      rw [heq] at hread
      exact hread
    · intro hread
      constructor
      · rw [heq]
        refine ⟨hread, fun _ q hq hnone => ?_⟩
        have hqp : q ≠ path := by
          rintro rfl
          rw [hr.link] at hnone
          cases hnone
        exact (hvisible q hq hqp).trans hnone
      · rw [heq]
        intro hdone other final d hlink hfinal hd
        have hhost := ht.text_hosted path _ hpath hr.link hr.isInternal
        rw [← link_unique hr.link hlink, hhost] at hfinal
        rw [← link_unique hf.linked hfinal, hostName_finalOf hhost hr.short, hf.data,
          Option.some.injEq, Node.file.injEq] at hd
        rw [← hd]
        exact hcopy hdone
  have hother : ∀ (s' : HostStore FileData) (u : L2sHost FileData),
      (∀ q, q ≠ path → s' q = s q) → ∀ q, isL2sInternalPath q = false → q ≠ path →
        u.dropped s' path q = s q :=
    fun s' u hsame q _ hqp => (dropped_other hqp).trans (hsame q hqp)
  rw [MaterializeSpares, forall_family_iff hr hf, CopySpares]
  have heq := materialize_eq later calls hr hf ht hpath
  by_cases hunlink : h.refuses (.unlink path) = none
  case neg =>
    rw [copyInPlace_kept hr.link hunlink] at heq
    rw [hmade heq (hother s _ fun _ _ => rfl) (fun hdone => by cases hdone)]
    simp only [hunlink, ne_eq, not_false_eq_true, true_implies, false_implies, and_true]
    by_cases hlater : later.refuses (.unlink path) = none
    · rw [dropped_of_ok (h := h.refusing later) hr.link (by simp) hlater,
        hr.readable_iff_of_other hf ht hpath fun q hq => Function.update_of_ne hq ..]
      exact iff_of_false (not_holds_of_none (Function.update_self ..)) fun hno => hno hlater
    · rw [dropped_of_refused (h := h.refusing later) hlater]
      exact iff_of_true keepsOutside_refl hlater
  simp only [hunlink, ne_eq, not_true_eq_false, false_implies, true_implies, true_and]
  by_cases hcreate : h.refuses (.create path) = none
  case neg =>
    rw [copyInPlace_uncreated hr.link hunlink hcreate] at heq
    rw [hmade heq (fun q _ hqp => Function.update_of_ne hqp ..) (fun hdone => by cases hdone),
      hr.readable_iff_of_other hf ht hpath fun q hq => Function.update_of_ne hq ..]
    exact iff_of_false (not_holds_of_none (Function.update_self ..)) fun hall => hcreate hall.1
  rw [and_iff_right hcreate]
  by_cases hall : calls.Completes data
  · rw [copyInPlace_complete hr.link hunlink hcreate hentry hall] at heq
    have hsame : ∀ q, q ≠ path → Function.update s path (some (.file data)) q = s q :=
      fun q hq => Function.update_of_ne hq ..
    have hf' := hf.of_visible hr.isInternal hpath hsame
    rw [hmade heq (fun q hq hqp => (retire_visible hi hf' hpos hq).trans (hsame q hqp))
      fun _ => (retire_visible hi hf' hpos hpath).trans (Function.update_self ..),
      hr.retire_readable_iff hf ht hpath hsame (Function.update_self ..)]
    simp only [hall, true_implies, not_true_eq_false, false_implies, and_true]
  · rw [copyInPlace_givenUp hr.link hunlink hcreate hentry hall] at heq
    rw [hmade heq (hother _ _ fun q hq => Function.update_of_ne hq ..)
        (fun hdone => by cases hdone),
      givenUp_readable_iff hr hf ht hpath]
    simp only [hall, false_implies, not_false_eq_true, true_implies, true_and, ne_eq]

end

/-! ### All of them -/

/-- **Which errors of the host harm no name that the guest sees.** -/
theorem errors_keep_iff {h : L2sHost FileData} {s : HostStore FileData} (ht : Tidy h s)
    {path : CStr} (hpath : isL2sInternalPath path = false) (habs : IsAbsolute path)
    (undo later : Refusals) (calls : CopyCalls) (dest : Except Errno CStr) :
    (DecrementKeeps h s path ↔ DecrementSpares h s path) ∧
      ((MoveSpares h undo s path dest → MoveKeeps h undo s (.ok path) dest) ∧
        (NamesFree h s path → MoveKeeps h undo s (.ok path) dest →
          MoveSpares h undo s path dest)) ∧
      (MaterializeKeeps h later calls s path ↔ MaterializeSpares h later calls s path) :=
  ⟨decrement_keeps_iff ht hpath, move_keeps ht hpath habs, materialize_keeps_iff ht hpath⟩

/-! ### Two names of one file -/

/-- The intermediate of `/x/a` and `/x/b`. -/
def pairIntermediate : CStr := str "/x/.l2s.a0001"

/-- The only call that the host refuses. -/
def diskRefuses (call : HostCall) : Option Errno :=
  if call = .rename (finalOf pairIntermediate 2) (finalOf pairIntermediate 1) then some .eacces
  else none

theorem diskRefuses_ne {e : Errno} (he : e ≠ .eacces) (call : HostCall) :
    diskRefuses call ≠ some e := by
  rw [diskRefuses]
  split
  · simpa using he.symm
  · simp

/-- A host that keeps the data of the pair where it is. -/
def diskHost : L2sHost FileData where
  l2sDir := none
  openDirectory := .ok ()
  refuses := diskRefuses
  renameDirectory _ _ _ := .error .eisdir
  follow _ text := text
  l2sDir_absolute := noDirectory_absolute
  rename_ne_enoent old new := diskRefuses_ne (by decide) (.rename old new)
  symlink_ne_eexist target path := diskRefuses_ne (by decide) (.symlink target path)
  follow_l2s _ _ _ _ := rfl

/-- Two names of one executable. -/
def pairStore : HostStore FileData := fun path =>
  if path = str "/x/a" then some (.link pairIntermediate)
  else if path = str "/x/b" then some (.link pairIntermediate)
  else if path = pairIntermediate then some (.link (finalOf pairIntermediate 2))
  else if path = finalOf pairIntermediate 2 then some (.file ⟨[1, 2], 0o755⟩)
  else none

theorem pairStore_named {path : CStr} (hn : Named diskHost pairStore path) :
    path = pairIntermediate := by
  obtain ⟨-, q, t, hq, hlink, hfollow⟩ := hn
  rw [pairStore] at hlink
  split_ifs at hlink with ha hb hi hf
  · cases hlink
    exact hfollow.symm
  · cases hlink
    exact hfollow.symm
  · rw [hi] at hq
    exact absurd hq (by decide +kernel)
  · cases hlink

theorem pairStore_tidy : Tidy diskHost pairStore := by
  constructor
  · intro q t hq hlink hin
    have hn : Named diskHost pairStore t := ⟨hin, q, t, hq, hlink, rfl⟩
    rw [pairStore_named hn]
    decide +kernel
  · intro q t _ _ _
    rfl
  · intro path hn
    rw [pairStore_named hn]
    decide +kernel
  · intro path hn
    rw [pairStore_named hn]
    refine .inr ⟨2, by decide, by decide, by decide +kernel, .inr ⟨⟨[1, 2], 0o755⟩, ?_⟩⟩
    decide +kernel
  · intro path other hn hn' n
    rw [pairStore_named hn, pairStore_named hn']
    exact (finalOf_ne pairIntermediate n).symm

/-- A link less of the two, which the host refuses: nothing has moved. -/
theorem errors_keep_iff_pair : DecrementKeeps diskHost pairStore (str "/x/a") := by
  refine (errors_keep_iff pairStore_tidy (by decide +kernel) (by decide) diskHost.refusals
    diskHost.refusals ⟨none, fun _ => .ok 0, fun _ => .ok 0, none, id⟩ (.ok (str "/x/c"))).1.2 ?_
  intro intermediate n c hr hf
  have hlink : pairStore (str "/x/a") = some (.link pairIntermediate) := by decide +kernel
  have hi := link_unique hr.link hlink
  subst hi
  have hfamily : IsFamily pairStore pairIntermediate 2 ⟨[1, 2], 0o755⟩ :=
    ⟨by decide, by decide +kernel, by decide +kernel⟩
  obtain ⟨rfl, -⟩ := hf.unique hfamily
  rw [if_neg (by decide)]
  exact .inl fun hmoves => absurd hmoves.2 (by decide +kernel)

/-- A copy to a disk that has room for one byte more. -/
def fullDisk : CopyCalls := ⟨none, fun _ => .ok 1, fun _ => .ok 1, none, id⟩

/-- **A full disk takes the name away**: the link is removed before the copy is
written, and the copy when it fails. -/
theorem fullDisk_loses_name :
    ¬ MaterializeKeeps diskHost diskHost.refusals fullDisk pairStore (str "/x/a") := by
  intro hkeeps
  have hheld : Holds diskHost.follow pairStore (str "/x/a") ⟨[1, 2], 0o755⟩ :=
    .link (t := pairIntermediate) (by decide +kernel)
      (.link (t := finalOf pairIntermediate 2) (by decide +kernel) (.file (by decide +kernel)))
  have hafter := hkeeps.names.readable (str "/x/a") (by decide +kernel) _ hheld
  have hgone : (diskHost.materializeExecutable diskHost.refusals fullDisk pairStore
      (str "/x/a")).1 (str "/x/a") = none := by decide +kernel
  exact not_holds_of_none hgone hafter

end NeoProot.Link2symlink
