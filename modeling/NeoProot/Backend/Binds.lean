import NeoProot.Basic
import NeoProot.Lib.Spelling

/-!
# The bind options of the UM supervisor

The supervisor refuses a bind whose target is one of the mount points that it controls, and
a second bind of one target.  It compares spellings, while the guest mounts by the path.
`uncontrolled_iff` says which options it takes that it means to refuse: those with slashes
and dots in front of a controlled name, and those that spell one target in two ways.

## Main definitions

* `umParseBind` — one option.
* `lexicalNames`, `Uncontrolled` — where a target leads, and what the binds taken should be.
* `PlainTargets` — the options for which they are.
-/

namespace NeoProot
open Segments

/-- `UM_MAX_BINDS`. -/
def umMaxBinds : ℕ := 64

/-- `UmBind`, as `um_parse_bind` fills it. -/
structure UmBind where
  host : CStr
  guest : CStr
  readonly : Bool
  deriving DecidableEq, Repr

/-- The loop of `um_path_has_parent_component`.  Every round takes at least one character
of the path. -/
def umParentLoop : ℕ → CStr → Bool
  | 0, _ => false
  | fuel + 1, path =>
    if path = [] then false
    else
      let component := path.dropWhile (· = '/')
      let name := component.takeWhile (· ≠ '/')
      if name = str ".." then true else umParentLoop fuel (component.drop name.length)

/-- `um_path_has_parent_component`. -/
def umPathHasParentComponent (path : CStr) : Bool := umParentLoop path.length path

/-- `um_validate_guest_path`, with what it prints. -/
def umValidateGuestPath (name value : CStr) : Except CStr Unit :=
  if ¬ IsAbsolute value then
    .error (str "neoproot-um: " ++ name ++ str " must be an absolute path\n")
  else if pathMax ≤ value.length ∨ umPathHasParentComponent value then
    .error (str "neoproot-um: invalid " ++ name ++ str " path\n")
  else .ok ()

/-- The trees that the supervisor mounts. -/
def controlledPrefixes : List CStr := [str "/proc", str "/sys", str "/dev"]

/-- `um_is_controlled_guest_path`. -/
def umIsControlledGuestPath (path : CStr) : Bool :=
  path = str "/" || controlledPrefixes.any fun tree =>
    path = tree || (tree.isPrefixOf path && path[tree.length]? = some '/')

/-- What follows the target behind a colon. -/
def bindOption (separator guest : CStr) : Option CStr :=
  if guest.length < separator.length then some (separator.drop (guest.length + 1)) else none

/-- `um_parse_bind`: the binds with this one, or nothing for a failure. -/
def umParseBind (binds : List UmBind) (value : CStr) : Option (List UmBind) :=
  if umMaxBinds ≤ binds.length ∨ value = [] then none
  else
    let host := value.takeWhile (· ≠ ':')
    let separator := value.drop (host.length + 1)
    if host = [] ∨ separator = [] then none
    else
      let guest := separator.takeWhile (· ≠ ':')
      let option := bindOption separator guest
      if option.any (· ≠ str "ro") then none
      else if umValidateGuestPath (str "bind target") guest ≠ .ok () ∨
          umIsControlledGuestPath guest ∨ ¬ IsAbsolute host ∨ ',' ∈ host then none
      else if binds.any fun existing => existing.guest = guest then none
      else some (binds ++ [⟨host, guest, option.isSome⟩])

/-- The bind options of a command line, in their order. -/
def umParseBinds (values : List CStr) : Option (List UmBind) := values.foldlM umParseBind []

/-! ### Where a target leads -/

/-- The names that a path leads past, with every `..` taking one back. -/
def lexicalNames (path : CStr) : List CStr :=
  (pieces '/' path).foldl (fun names c =>
    if c = [] ∨ c = str "." then names
    else if c = str ".." then names.dropLast
    else names ++ [c]) []

/-- The root, or a place in one of the trees that the supervisor mounts. -/
def IsControlledPlace (names : List CStr) : Prop :=
  names = [] ∨ names.head? = some (str "proc") ∨ names.head? = some (str "sys") ∨
    names.head? = some (str "dev")

/-- No target leads to a controlled place, and no two to the same place. -/
structure Uncontrolled (binds : List UmBind) : Prop where
  targets : ∀ b ∈ binds, ¬ IsControlledPlace (lexicalNames b.guest)
  distinct : binds.Pairwise fun b b' => lexicalNames b.guest ≠ lexicalNames b'.guest

/-! ### Plain options -/

/-- The target that an option names. -/
def bindTarget (value : CStr) : CStr :=
  (value.drop ((value.takeWhile (· ≠ ':')).length + 1)).takeWhile (· ≠ ':')

/-- What follows a slash, without the slashes and dots in front. -/
def skipRedundant : CStr → CStr
  | '/' :: rest => skipRedundant rest
  | '.' :: '/' :: rest => skipRedundant rest
  | ['.'] => []
  | rest => rest

/-- No target has slashes and dots in front that hide a controlled path, and no two are
spellings of one another. -/
structure PlainTargets (values : List CStr) : Prop where
  fronts : ∀ value ∈ values,
    umIsControlledGuestPath ('/' :: skipRedundant (bindTarget value).tail) = false
  spellings : values.Pairwise fun value value' =>
    ¬ Spellings '/' '.' (bindTarget value) (bindTarget value')

/-! ### The parent components -/

theorem mem_pieces_dropWhile {d : CStr} (hd : d ≠ []) (path : CStr) :
    d ∈ pieces '/' path ↔ d ∈ pieces '/' (path.dropWhile (· = '/')) := by
  induction path with
  | nil => rfl
  | cons c path ih =>
    by_cases hc : c = '/'
    · subst hc
      have hpieces : pieces '/' ('/' :: path) = [] :: pieces '/' path := by
        simpa using pieces_append_sep '/' [] path
      rw [hpieces, List.mem_cons, List.dropWhile_cons_of_pos (by simp), ← ih]
      simp [hd]
    · rw [List.dropWhile_cons_of_neg (by simpa using hc)]

theorem pieces_slash_cons (s : CStr) : pieces '/' ('/' :: s) = [] :: pieces '/' s := by
  simpa using pieces_append_sep '/' [] s

/-- The first piece, and the pieces after it. -/
theorem pieces_takeWhile (s : CStr) :
    pieces '/' s = s.takeWhile (· ≠ '/') ::
      if s.drop (s.takeWhile (· ≠ '/')).length = [] then []
      else pieces '/' (s.drop ((s.takeWhile (· ≠ '/')).length + 1)) := by
  induction s with
  | nil => rfl
  | cons c s ih =>
    by_cases hc : c = '/'
    · subst hc
      rw [pieces_slash_cons, List.takeWhile_cons_of_neg (by simp)]
      simp
    · rw [List.takeWhile_cons_of_pos (by simpa using hc)]
      simp only [pieces, cut_letter '/' hc, List.length_cons, List.drop_succ_cons,
        List.cons.injEq] at ih ⊢
      exact ⟨⟨trivial, ih.1⟩, ih.2⟩

theorem drop_takeWhile_cases (s : CStr) : s.drop (s.takeWhile (· ≠ '/')).length = [] ∨
    ∃ rest, s.drop (s.takeWhile (· ≠ '/')).length = '/' :: rest ∧
      s.drop ((s.takeWhile (· ≠ '/')).length + 1) = rest := by
  induction s with
  | nil => exact .inl rfl
  | cons c s ih =>
    by_cases hc : c = '/'
    · subst hc
      rw [List.takeWhile_cons_of_neg (by simp)]
      exact .inr ⟨s, rfl, rfl⟩
    · rw [List.takeWhile_cons_of_pos (by simpa using hc)]
      simpa using ih

theorem umParentLoop_eq_false {fuel : ℕ} {path : CStr} (hfuel : path.length ≤ fuel)
    (h : umParentLoop fuel path = false) : str ".." ∉ pieces '/' path := by
  induction fuel generalizing path with
  | zero =>
    rw [List.eq_nil_of_length_eq_zero (by omega : path.length = 0)]
    decide
  | succ fuel ih =>
    by_cases hnil : path = []
    · rw [hnil]
      decide
    rw [mem_pieces_dropWhile (by decide)]
    simp only [umParentLoop, if_neg hnil] at h
    have hshort : (path.dropWhile (· = '/')).length ≤ path.length :=
      (List.dropWhile_suffix _).length_le
    have hgone : (path.dropWhile (· = '/')).head? = some '/' → False := by
      intro hhead
      have hnot := List.head?_dropWhile_not (fun c => decide (c = '/')) path
      rw [hhead] at hnot
      exact absurd hnot (by simp)
    generalize path.dropWhile (· = '/') = component at h hshort hgone
    split at h
    · exact absurd h (by simp)
    · rename_i hname
      rw [pieces_takeWhile, List.mem_cons, not_or]
      refine ⟨fun heq => hname heq.symm, ?_⟩
      have hlt : component ≠ [] → 0 < (component.takeWhile (· ≠ '/')).length := by
        intro hne
        cases component with
        | nil => exact absurd rfl hne
        | cons c rest =>
          have hc : c ≠ '/' := by
            rintro rfl
            exact hgone rfl
          rw [List.takeWhile_cons_of_pos (by simpa using hc)]
          exact Nat.succ_pos _
      obtain hend | ⟨rest, hrest, htail⟩ := drop_takeWhile_cases component
      · rw [if_pos hend]
        exact List.not_mem_nil
      · rw [hrest] at h
        rw [hrest, if_neg (List.cons_ne_nil _ _), htail]
        have hcomponent : component ≠ [] := by
          rintro rfl
          exact absurd hrest (by simp)
        have hpos := hlt hcomponent
        have hlen := congrArg List.length hrest
        rw [List.length_drop, List.length_cons] at hlen
        have hle : ('/' :: rest).length ≤ fuel := by
          rw [List.length_cons]
          omega
        have hmem := ih hle h
        rw [pieces_slash_cons, List.mem_cons, not_or] at hmem
        exact hmem.2

/-- A target that is taken has no parent component. -/
theorem parent_not_mem_of_valid {name value : CStr} (h : umValidateGuestPath name value = .ok ()) :
    IsAbsolute value ∧ str ".." ∉ pieces '/' value := by
  rw [umValidateGuestPath] at h
  split at h
  · exact absurd h (by simp)
  · rename_i habs
    split at h
    · exact absurd h (by simp)
    · rename_i hparent
      refine ⟨not_not.1 habs, umParentLoop_eq_false le_rfl ?_⟩
      rw [not_or] at hparent
      simpa [umPathHasParentComponent] using hparent.2

/-! ### Controlled places -/

/-- Without parent components the names are the pieces that lead somewhere. -/
theorem lexicalNames_eq_names {path : CStr} (h : str ".." ∉ pieces '/' path) :
    lexicalNames path = names '/' '.' path := by
  have hfold : ∀ (cs done : List CStr), str ".." ∉ cs →
      cs.foldl (fun names c =>
        if c = [] ∨ c = str "." then names
        else if c = str ".." then names.dropLast
        else names ++ [c]) done = done ++ cs.filter fun c => c ≠ [] ∧ c ≠ ['.'] := by
    intro cs
    induction cs with
    | nil => simp
    | cons c cs ih =>
      intro done hcs
      rw [List.mem_cons, not_or] at hcs
      rw [List.foldl_cons, ih _ hcs.2, List.filter_cons]
      by_cases hskip : c = [] ∨ c = str "."
      · rw [if_pos hskip, if_neg]
        obtain rfl | rfl := hskip
        · simp
        · simp [str]
      · rw [if_neg hskip, if_neg (Ne.symm hcs.1), if_pos, List.append_assoc, List.singleton_append]
        simpa [not_or, str] using hskip
  rw [lexicalNames, hfold _ _ h, List.nil_append, names]

theorem names_skipRedundant (s : CStr) : names '/' '.' (skipRedundant s) = names '/' '.' s := by
  induction s using skipRedundant.induct with
  | case1 rest ih => rw [skipRedundant, ih, names_sep_cons]
  | case2 rest ih =>
    have hrest := names_append_sep '/' '.' ['.'] rest
    rw [names_dot (by decide), List.nil_append] at hrest
    rw [skipRedundant, ih]
    exact hrest.symm
  | case3 => rfl
  | case4 rest h₁ h₂ h₃ => rw [skipRedundant.eq_4 rest h₁ h₂ h₃]

/-- What is left in front leads somewhere, unless nothing is left. -/
theorem skipRedundant_front (s : CStr) : skipRedundant s = [] ∨
    (skipRedundant s).takeWhile (· ≠ '/') ≠ [] ∧ (skipRedundant s).takeWhile (· ≠ '/') ≠ ['.'] := by
  induction s using skipRedundant.induct with
  | case1 rest ih => rwa [skipRedundant]
  | case2 rest ih => rwa [skipRedundant]
  | case3 => exact .inl rfl
  | case4 rest h₁ h₂ h₃ =>
    rw [skipRedundant.eq_4 rest h₁ h₂ h₃]
    match rest with
    | [] => exact .inl rfl
    | c :: rest =>
      have hc : c ≠ '/' := fun hc => h₁ rest (by rw [hc])
      refine .inr ?_
      rw [List.takeWhile_cons_of_pos (by simpa using hc)]
      refine ⟨List.cons_ne_nil _ _, fun hdot => ?_⟩
      obtain ⟨rfl, hrest⟩ := List.cons.inj hdot
      match rest with
      | [] => exact h₃ rfl
      | d :: rest =>
        by_cases hd : d = '/'
        · exact h₂ rest (by rw [hd])
        · rw [List.takeWhile_cons_of_pos (by simpa using hd)] at hrest
          exact absurd hrest (List.cons_ne_nil _ _)

/-- A tree is in front of a path when it is the first of its names. -/
theorem takeWhile_eq_iff {p r : CStr} (hp : '/' ∉ p) :
    r.takeWhile (· ≠ '/') = p ↔ r = p ∨ p.isPrefixOf r = true ∧ r[p.length]? = some '/' := by
  have hall : ∀ a ∈ p, decide (a ≠ '/') = true := by
    intro a ha
    simpa using fun heq : a = '/' => hp (heq ▸ ha)
  constructor
  · rintro rfl
    have hsplit : r.takeWhile (· ≠ '/') ++ r.dropWhile (· ≠ '/') = r :=
      List.takeWhile_append_dropWhile
    have hfront : r.takeWhile (· ≠ '/') <+: r := List.takeWhile_prefix _
    have hhead := List.head?_dropWhile_not (fun c => decide (c ≠ '/')) r
    generalize r.takeWhile (· ≠ '/') = front at hsplit hfront ⊢
    cases hrest : r.dropWhile (· ≠ '/') with
    | nil =>
      rw [hrest, List.append_nil] at hsplit
      exact .inl hsplit.symm
    | cons c rest =>
      rw [hrest] at hsplit hhead
      have hc : c = '/' := by simpa using hhead
      refine .inr ⟨List.isPrefixOf_iff_prefix.2 hfront, ?_⟩
      rw [← hsplit, List.getElem?_append_right le_rfl, Nat.sub_self, hc]
      rfl
  · rintro (rfl | ⟨hfront, hnext⟩)
    · have hself : (r ++ []).takeWhile (· ≠ '/') = r ++ [].takeWhile (· ≠ '/') :=
        List.takeWhile_append_of_pos hall
      simpa using hself
    · obtain ⟨t, rfl⟩ := List.isPrefixOf_iff_prefix.1 hfront
      rw [List.getElem?_append_right le_rfl, Nat.sub_self] at hnext
      obtain ⟨rest, rfl⟩ := List.head?_eq_some_iff.1 (List.head?_eq_getElem? ▸ hnext)
      rw [List.takeWhile_append_of_pos hall, List.takeWhile_cons_of_neg (by simp), List.append_nil]

/-- **What the check of the supervisor refuses** is the controlled places, as long as no
slashes and dots hide them. -/
theorem isControlled_skipRedundant_iff (path : CStr) :
    umIsControlledGuestPath ('/' :: skipRedundant path) = true ↔
      IsControlledPlace (names '/' '.' path) := by
  have htree : ∀ p ∈ [str "proc", str "sys", str "dev"],
      ('/' :: skipRedundant path = '/' :: p ∨ ('/' :: p).isPrefixOf ('/' :: skipRedundant path) ∧
        ('/' :: skipRedundant path)[('/' :: p).length]? = some '/') ↔
      (skipRedundant path).takeWhile (· ≠ '/') = p := by
    intro p hp
    have hfree : '/' ∉ p := by
      revert p
      decide
    rw [takeWhile_eq_iff hfree]
    simp
  have hcheck : umIsControlledGuestPath ('/' :: skipRedundant path) = true ↔
      skipRedundant path = [] ∨ (skipRedundant path).takeWhile (· ≠ '/') = str "proc" ∨
        (skipRedundant path).takeWhile (· ≠ '/') = str "sys" ∨
        (skipRedundant path).takeWhile (· ≠ '/') = str "dev" := by
    rw [← htree (str "proc") (by simp), ← htree (str "sys") (by simp), ← htree (str "dev") (by simp)]
    simp [umIsControlledGuestPath, controlledPrefixes, str]
  rw [hcheck, ← names_skipRedundant, IsControlledPlace]
  obtain hnil | ⟨hne, hdot⟩ := skipRedundant_front path
  · simp [hnil]
  · have hnames : (names '/' '.' (skipRedundant path)).head? =
        some ((skipRedundant path).takeWhile (· ≠ '/')) := by
      rw [names, pieces_takeWhile, List.filter_cons, if_pos (decide_eq_true ⟨hne, hdot⟩)]
      rfl
    have hrest : skipRedundant path ≠ [] := by
      rintro hnil
      rw [hnil] at hne
      exact hne rfl
    have hnonempty : names '/' '.' (skipRedundant path) ≠ [] := by
      rintro hnil
      rw [hnil] at hnames
      exact absurd hnames (by simp)
    rw [hnames]
    simp only [hrest, hnonempty, Option.some.injEq, false_or]

/-! ### The options taken -/

/-- What `um_parse_bind` takes. -/
theorem umParseBind_eq_some {binds binds' : List UmBind} {value : CStr}
    (h : umParseBind binds value = some binds') :
    ∃ b : UmBind, binds' = binds ++ [b] ∧ b.guest = bindTarget value ∧ IsAbsolute b.guest ∧
      str ".." ∉ pieces '/' b.guest := by
  simp only [umParseBind] at h
  split at h
  · exact absurd h (by simp)
  split at h
  · exact absurd h (by simp)
  split at h
  · exact absurd h (by simp)
  split at h
  · exact absurd h (by simp)
  rename_i hvalid
  split at h
  · exact absurd h (by simp)
  rw [not_or, not_not] at hvalid
  obtain ⟨habs, hparent⟩ := parent_not_mem_of_valid hvalid.1
  exact ⟨_, (Option.some.inj h).symm, rfl, habs, hparent⟩

theorem foldlM_umParseBind {binds binds' : List UmBind} {values : List CStr}
    (h : values.foldlM umParseBind binds = some binds') :
    binds'.map (·.guest) = binds.map (·.guest) ++ values.map bindTarget ∧
      ∀ value ∈ values, IsAbsolute (bindTarget value) ∧ str ".." ∉ pieces '/' (bindTarget value) := by
  induction values generalizing binds with
  | nil =>
    obtain rfl : binds = binds' := Option.some.inj h
    simp
  | cons value values ih =>
    rw [List.foldlM_cons, Option.bind_eq_bind, Option.bind_eq_some_iff] at h
    obtain ⟨next, hnext, hrest⟩ := h
    obtain ⟨b, rfl, hb, habs, hparent⟩ := umParseBind_eq_some hnext
    obtain ⟨hmap, hall⟩ := ih hrest
    rw [hb] at habs hparent
    refine ⟨?_, List.forall_mem_cons.2 ⟨⟨habs, hparent⟩, hall⟩⟩
    rw [hmap, List.map_append, List.map_cons, List.map_nil, hb, List.map_cons, List.append_assoc,
      List.singleton_append]

/-- **The options for which the targets that are taken are uncontrolled.** -/
theorem uncontrolled_iff {values : List CStr} {binds : List UmBind}
    (h : umParseBinds values = some binds) : Uncontrolled binds ↔ PlainTargets values := by
  obtain ⟨hmap, hvalid⟩ := foldlM_umParseBind h
  rw [List.map_nil, List.nil_append] at hmap
  have hcontrolled : ∀ value ∈ values,
      (¬ IsControlledPlace (lexicalNames (bindTarget value)) ↔
        umIsControlledGuestPath ('/' :: skipRedundant (bindTarget value).tail) = false) := by
    intro value hvalue
    obtain ⟨habs, hparent⟩ := hvalid value hvalue
    obtain ⟨rest, hrest⟩ := List.head?_eq_some_iff.1 habs
    rw [lexicalNames_eq_names hparent, ← Bool.not_eq_true, isControlled_skipRedundant_iff, hrest,
      List.tail_cons, names_sep_cons]
  have hspelled : ∀ value ∈ values, ∀ value' ∈ values,
      (lexicalNames (bindTarget value) = lexicalNames (bindTarget value') ↔
        Spellings '/' '.' (bindTarget value) (bindTarget value')) := by
    intro value hvalue value' hvalue'
    rw [lexicalNames_eq_names (hvalid value hvalue).2,
      lexicalNames_eq_names (hvalid value' hvalue').2,
      names_eq_iff (by decide) (hvalid value hvalue).1 (hvalid value' hvalue').1]
  have htargets : (∀ b ∈ binds, ¬ IsControlledPlace (lexicalNames b.guest)) ↔
      ∀ guest ∈ values.map bindTarget, ¬ IsControlledPlace (lexicalNames guest) := by
    rw [← hmap]
    simp
  have hdistinct : (binds.Pairwise fun b b' => lexicalNames b.guest ≠ lexicalNames b'.guest) ↔
      values.Pairwise fun value value' =>
        lexicalNames (bindTarget value) ≠ lexicalNames (bindTarget value') := by
    rw [← List.pairwise_map (f := UmBind.guest) (R := fun p p' => lexicalNames p ≠ lexicalNames p'),
      hmap, List.pairwise_map]
  constructor
  · rintro ⟨hplaces, hpairs⟩
    refine ⟨fun value hvalue => ?_, ?_⟩
    · exact (hcontrolled value hvalue).1 (htargets.1 hplaces _ (List.mem_map_of_mem hvalue))
    · refine (hdistinct.1 hpairs).imp_of_mem fun hvalue hvalue' hne hsame => ?_
      exact hne ((hspelled _ hvalue _ hvalue').2 hsame)
  · rintro ⟨hfronts, hspellings⟩
    refine ⟨htargets.2 fun guest hguest => ?_, hdistinct.2 ?_⟩
    · obtain ⟨value, hvalue, rfl⟩ := List.mem_map.1 hguest
      exact (hcontrolled value hvalue).2 (hfronts value hvalue)
    · refine hspellings.imp_of_mem fun hvalue hvalue' hne hsame => ?_
      exact hne ((hspelled _ hvalue _ hvalue').1 hsame)

/-- Two binds of the usual kind. -/
theorem uncontrolled_mounts :
    umParseBinds [str "/r/a:/mnt", str "/r/b:/opt/b:ro"] =
      some [⟨str "/r/a", str "/mnt", false⟩, ⟨str "/r/b", str "/opt/b", true⟩] ∧
    (Uncontrolled [⟨str "/r/a", str "/mnt", false⟩, ⟨str "/r/b", str "/opt/b", true⟩] ↔
      PlainTargets [str "/r/a:/mnt", str "/r/b:/opt/b:ro"]) := by
  have hparse : umParseBinds [str "/r/a:/mnt", str "/r/b:/opt/b:ro"] =
      some [⟨str "/r/a", str "/mnt", false⟩, ⟨str "/r/b", str "/opt/b", true⟩] := by
    decide
  exact ⟨hparse, uncontrolled_iff hparse⟩

/-- A second slash hides the target from the check. -/
theorem exists_controlled_target :
    ¬ ∀ values binds, umParseBinds values = some binds → Uncontrolled binds := by
  intro h
  have hall := h [str "/r/a://proc"] [⟨str "/r/a", str "//proc", false⟩] (by decide)
  have hplace := hall.targets ⟨str "/r/a", str "//proc", false⟩ (List.mem_singleton_self _)
  exact hplace (.inr (.inl (by decide)))

end NeoProot
