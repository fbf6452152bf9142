import NeoProot.Extension.Link2symlink
import NeoProot.Lib.Spelling
import Mathlib.Algebra.Group.Nat.Even

/-!
# The object store of Git

A link below `objects/` is left to the kernel when its name is one of an object
store.  The loop looks for the next `/objects/` behind the one it found, so that the
slash between two directories called `objects` belongs to the first of them.

## Main definitions

* `Layout` — the names below `objects/`.
* `IsLinkDest` — the destinations in an object store.
* `objectsBefore` — the directories called `objects` right above a place.
* `isGitOdbLinkDest_iff` — which of the destinations the loop finds.
-/

namespace NeoProot.GitObjects
open Segments Respelling Link2symlink

variable {c rest : CStr} {cs : List CStr}

/-! ### The store -/

/-- The name of one file. -/
def IsFile (file : CStr) : Prop := file ≠ [] ∧ '/' ∉ file

/-- The names below `objects/`. -/
inductive Layout : CStr → Prop
  | loose {a b : Char} {name : CStr} (ha : isXdigit a = true) (hb : isXdigit b = true)
      (hname : ∀ c ∈ name, isXdigit c = true) (hlength : name.length = 38 ∨ name.length = 62) :
      Layout (a :: b :: '/' :: name)
  | pack {file : CStr} (hfile : IsFile file) : Layout (str "pack/" ++ file)
  | info {file : CStr} (hfile : IsFile file) : Layout (str "info/" ++ file)
  | commitGraph {file : CStr} (hfile : IsFile file) :
      Layout (str "info/commit-graphs/" ++ file)

/-- A component starts behind this part of a path. -/
def AtBoundary (front : CStr) : Prop := front = [] ∨ front.getLast? = some '/'

/-- Some suffix of the path that starts with a component is `objects/` and a name
of the store. -/
def IsLinkDest (path : CStr) : Prop :=
  ∃ front rest, AtBoundary front ∧ path = front ++ (str "objects/" ++ rest) ∧ Layout rest

/-- The component `objects`. -/
def objects : CStr := str "objects"

/-- The components called `objects` at the end of a list. -/
def trailing (cs : List CStr) : ℕ := (cs.rtakeWhile (· = objects)).length

/-- The directories called `objects` right above a place. -/
def objectsBefore (front : CStr) : ℕ := trailing (pieces '/' front).dropLast

/-! ### The names below a directory -/

theorem isChildOf_iff {directory : CStr} :
    isChildOf directory rest = true ↔ ∃ file, IsFile file ∧ rest = directory ++ file := by
  constructor
  · intro h
    simp only [isChildOf, Bool.and_eq_true, List.isPrefixOf_iff_prefix] at h
    obtain ⟨⟨file, rfl⟩, hfile⟩ := h
    refine ⟨file, ?_, rfl⟩
    simpa [IsFile] using hfile
  · intro ⟨file, hfile, hrest⟩
    simpa [isChildOf, hrest, IsFile] using hfile

theorem isLooseObject_iff :
    isLooseObject rest = true ↔ ∃ a b name, isXdigit a = true ∧ isXdigit b = true ∧
      (∀ c ∈ name, isXdigit c = true) ∧ (name.length = 38 ∨ name.length = 62) ∧
        rest = a :: b :: '/' :: name := by
  constructor
  · intro h
    unfold isLooseObject at h
    split at h
    · simp only [Bool.and_eq_true, Bool.or_eq_true, beq_iff_eq, List.all_eq_true] at h
      exact ⟨_, _, _, h.1.1.1, h.1.1.2, h.1.2, h.2, rfl⟩
    · cases h
  · rintro ⟨a, b, name, ha, hb, hname, hlength, rfl⟩
    simpa [isLooseObject, ha, hb] using ⟨hname, hlength⟩

theorem isOdbLayout_iff : isOdbLayout rest = true ↔ Layout rest := by
  simp only [isOdbLayout, Bool.or_eq_true, isLooseObject_iff, isChildOf_iff]
  constructor
  · rintro (((⟨a, b, name, ha, hb, hname, hlength, rfl⟩ | ⟨file, hfile, rfl⟩) |
      ⟨file, hfile, rfl⟩) | ⟨file, hfile, rfl⟩)
    · exact .loose ha hb hname hlength
    · exact .pack hfile
    · exact .info hfile
    · exact .commitGraph hfile
  · intro h
    cases h with
    | loose ha hb hname hlength =>
      exact .inl (.inl (.inl ⟨_, _, _, ha, hb, hname, hlength, rfl⟩))
    | pack hfile => exact .inl (.inl (.inr ⟨_, hfile, rfl⟩))
    | info hfile => exact .inl (.inr ⟨_, hfile, rfl⟩)
    | commitGraph hfile => exact .inr ⟨_, hfile, rfl⟩

/-! ### Paths as components -/

/-- The components with slashes between them. -/
def text : List CStr → CStr
  | [] => []
  | c :: cs => c ++ flat '/' cs

theorem text_pieces (path : CStr) : text (pieces '/' path) = path := cut_flat '/' path

theorem pieces_text (h : SepFree '/' (c :: cs)) : pieces '/' (text (c :: cs)) = c :: cs := by
  have hfree : SepFree '/' cs := fun d hd => h d (List.mem_cons_of_mem c hd)
  rw [text, pieces, cut_append_flat '/' (h c (by simp)) hfree]

theorem pieces_ne_nil (path : CStr) : pieces '/' path ≠ [] := by simp [pieces]

/-- The components of a path that goes on behind a boundary. -/
theorem pieces_boundary {front : CStr} (hfront : AtBoundary front) (path : CStr) :
    pieces '/' (front ++ path) = (pieces '/' front).dropLast ++ pieces '/' path := by
  obtain rfl | hlast := hfront
  · rfl
  · obtain ⟨dirs, rfl⟩ := List.getLast?_eq_some_iff.1 hlast
    simp only [pieces_append_sep, List.append_assoc, List.singleton_append, pieces_nil,
      List.dropLast_concat]

theorem pieces_objects (rest : CStr) :
    pieces '/' (str "objects/" ++ rest) = objects :: pieces '/' rest := by
  have hcut : str "objects/" ++ rest = objects ++ '/' :: rest := rfl
  rw [hcut, pieces_append_sep, pieces_of_sepFree '/' (by decide)]
  rfl

/-- A destination in the store, by the components of the path. -/
theorem decomposition_iff {path front : CStr} (hfront : AtBoundary front) :
    path = front ++ (str "objects/" ++ rest) ↔
      pieces '/' path = (pieces '/' front).dropLast ++ objects :: pieces '/' rest := by
  rw [← pieces_objects, ← pieces_boundary hfront]
  constructor
  · intro h
    rw [h]
  · intro h
    rw [← text_pieces path, h, text_pieces]

/-- Components above a place are those of a part of the path. -/
theorem exists_front {dirs : List CStr} (h : SepFree '/' dirs) :
    ∃ front, AtBoundary front ∧ (pieces '/' front).dropLast = dirs := by
  cases dirs with
  | nil => exact ⟨[], .inl rfl, rfl⟩
  | cons c cs =>
    refine ⟨text (c :: cs) ++ ['/'], .inr (by simp), ?_⟩
    rw [pieces_append_sep, pieces_text h, pieces_nil, List.dropLast_concat]

/-! ### The loop -/

/-- The loop on the components of a path: a component `objects` that another one
follows is looked at, and the next component is skipped. -/
def scan : List CStr → Bool
  | [] => false
  | [_] => false
  | c :: d :: cs =>
    if c = objects then isOdbLayout (text (d :: cs)) || scan cs else scan (d :: cs)

/-- `strstr (p, "/objects/")` passes the first component. -/
theorem afterObjects_of_notMem (hc : '/' ∉ c) (p : CStr) :
    afterObjects (c ++ p) = afterObjects p := by
  induction c with
  | nil => rfl
  | cons a c ih =>
    have ha : a ≠ '/' := fun h => hc (by simp [h])
    have hno : ¬ (str "/objects/").isPrefixOf (a :: (c ++ p)) = true := by
      rw [List.isPrefixOf_iff_prefix]
      intro h
      apply ha
      exact (List.cons_prefix_cons.1 h).1.symm
    rw [List.cons_append, afterObjects, if_neg hno]
    exact ih fun h => hc (by simp [h])

/-- A word without slashes and a slash are at the start of a path if the word is its
first component and another one follows. -/
theorem prefix_text_iff {w : CStr} (hw : '/' ∉ w) (h : SepFree '/' (c :: cs)) :
    w ++ ['/'] <+: text (c :: cs) ↔ c = w ∧ cs ≠ [] := by
  constructor
  · intro ⟨more, hmore⟩
    have hpieces := congrArg (pieces '/') hmore
    rw [pieces_text h, List.append_assoc, List.singleton_append, pieces_append_sep,
      pieces_of_sepFree '/' hw, List.singleton_append, List.cons.injEq] at hpieces
    refine ⟨hpieces.1.symm, ?_⟩
    rw [← hpieces.2]
    exact pieces_ne_nil more
  · intro ⟨hc, hne⟩
    cases cs with
    | nil => exact absurd rfl hne
    | cons d cs => exact ⟨text (d :: cs), by simp [text, hc]⟩

theorem text_objects (d : CStr) (cs : List CStr) :
    text (objects :: d :: cs) = str "objects/" ++ text (d :: cs) := by
  simp [text, objects, str]

/-- The next `/objects/` behind the first component. -/
theorem afterObjects_text {d : CStr} (h : SepFree '/' (c :: d :: cs)) :
    afterObjects (text (c :: d :: cs)) =
      if d = objects ∧ cs ≠ [] then some (text cs) else afterObjects (text (d :: cs)) := by
  have htext : text (c :: d :: cs) = c ++ '/' :: text (d :: cs) := by simp [text]
  have hslash : (str "/objects/").isPrefixOf ('/' :: text (d :: cs)) = true ↔
      d = objects ∧ cs ≠ [] := by
    rw [List.isPrefixOf_iff_prefix, ← prefix_text_iff (w := objects) (by decide)
      (fun e he => h e (by simp_all))]
    exact List.prefix_cons_inj '/'
  rw [htext, afterObjects_of_notMem (h c (by simp)), afterObjects]
  by_cases hhit : d = objects ∧ cs ≠ []
  · rw [if_pos (hslash.2 hhit), if_pos hhit]
    cases cs with
    | nil => exact absurd rfl hhit.2
    | cons e cs =>
      rw [hhit.1, text_objects]
      rfl
  · rw [if_neg (fun hp => hhit (hslash.1 hp)), if_neg hhit]

theorem length_text_cons (c d : CStr) (cs : List CStr) :
    (text (d :: cs)).length < (text (c :: d :: cs)).length := by
  simp only [text, flat_cons, List.length_append, List.length_cons]
  omega

theorem hasOdbLayout_congr {n : ℕ} {p q : CStr} (h : afterObjects p = afterObjects q) :
    hasOdbLayout n p = hasOdbLayout n q := by
  cases n with
  | zero => rfl
  | succ n => rw [hasOdbLayout, hasOdbLayout, h]

theorem afterObjects_singleton (hc : '/' ∉ c) : afterObjects (text [c]) = none := by
  rw [text, afterObjects_of_notMem hc]
  rfl

theorem hasOdbLayout_none {p : CStr} (h : afterObjects p = none) (n : ℕ) :
    hasOdbLayout n p = false := by
  cases n with
  | zero => rfl
  | succ n => rw [hasOdbLayout, h]

theorem SepFree.tail (h : SepFree '/' (c :: cs)) : SepFree '/' cs :=
  fun d hd => h d (List.mem_cons_of_mem c hd)

/-- The loop behind the first component. -/
theorem hasOdbLayout_text {n : ℕ} (h : SepFree '/' (c :: cs)) (hn : (text (c :: cs)).length ≤ n) :
    hasOdbLayout n (text (c :: cs)) = scan cs := by
  induction cs using scan.induct generalizing c n with
  | case1 => exact hasOdbLayout_none (afterObjects_singleton (h c (by simp))) n
  | case2 d =>
    apply hasOdbLayout_none
    rw [afterObjects_text h, if_neg (by simp)]
    exact afterObjects_singleton (h d (by simp))
  | case3 d cs ih =>
    -- the hit skips the component `d` behind it
    have hlength := length_text_cons c objects (d :: cs)
    have hlength' := length_text_cons objects d cs
    cases n with
    | zero => omega
    | succ n =>
      rw [hasOdbLayout, afterObjects_text h, if_pos (by simp), scan, if_pos rfl]
      simp only [ih (n := n) (SepFree.tail (SepFree.tail h)) (by omega)]
  | case4 d e cs hne ih =>
    have hlength := length_text_cons c d (e :: cs)
    have hpass := afterObjects_text h
    rw [if_neg fun hhit => hne hhit.1] at hpass
    rw [hasOdbLayout_congr hpass, scan, if_neg hne]
    exact ih (SepFree.tail h) (by omega)

/-- The loop, from the start of the path. -/
theorem isGitOdbLinkDest_eq (path : CStr) : isGitOdbLinkDest path = scan (pieces '/' path) := by
  have hfree := sepFree_pieces '/' path
  have htext := text_pieces path
  cases hpath : pieces '/' path with
  | nil => exact absurd hpath (pieces_ne_nil path)
  | cons c cs =>
    rw [hpath] at hfree htext
    have hstart : (str "objects/").isPrefixOf (text (c :: cs)) = true ↔ c = objects ∧ cs ≠ [] := by
      rw [List.isPrefixOf_iff_prefix]
      exact prefix_text_iff (w := objects) (by decide) hfree
    rw [← htext, isGitOdbLinkDest]
    cases cs with
    | nil =>
      rw [if_neg (by simp [hstart]), hasOdbLayout_text hfree (Nat.le_refl _)]
      rfl
    | cons d cs =>
      have hlength := length_text_cons c d cs
      by_cases hc : c = objects
      · have hdrop : (text (c :: d :: cs)).drop 8 = text (d :: cs) := by
          rw [hc, text_objects]
          rfl
        rw [if_pos (hstart.2 ⟨hc, by simp⟩), hdrop,
          hasOdbLayout_text (SepFree.tail hfree) (by omega), scan, if_pos hc]
      · rw [if_neg (fun h => hc (hstart.1 h).1), hasOdbLayout_text hfree (Nat.le_refl _), scan,
          if_neg hc]

/-! ### Directories called `objects` in a row -/

theorem trailing_concat (cs : List CStr) (c : CStr) :
    trailing (cs ++ [c]) = if c = objects then trailing cs + 1 else 0 := by
  by_cases hc : c = objects
  · simp [trailing, hc]
  · simp [trailing, hc]

/-- A component in front counts if all behind it do. -/
theorem trailing_cons (c : CStr) (cs : List CStr) :
    trailing (c :: cs) = if ∀ d ∈ c :: cs, d = objects then cs.length + 1 else trailing cs := by
  induction cs using List.reverseRecOn with
  | nil =>
    have hone := trailing_concat [] c
    rw [List.nil_append] at hone
    rw [hone, trailing]
    simp
  | append_singleton cs d ih =>
    rw [← List.cons_append, trailing_concat, trailing_concat, ih]
    by_cases hd : d = objects
    · by_cases hall : ∀ e ∈ c :: cs, e = objects
      · have hmore : ∀ e ∈ c :: cs ++ [d], e = objects := by
          simpa [or_imp, forall_and, hd] using hall
        rw [if_pos hd, if_pos hall, if_pos hmore]
        simp
      · have hless : ¬ ∀ e ∈ c :: cs ++ [d], e = objects :=
          fun h => hall fun e he => h e (List.mem_append_left _ he)
        rw [if_pos hd, if_neg hall, if_neg hless, if_pos hd]
    · have hless : ¬ ∀ e ∈ c :: cs ++ [d], e = objects :=
        fun h => hd (h d (by simp))
      rw [if_neg hd, if_neg hless, if_neg hd]

theorem trailing_of_all (h : ∀ d ∈ cs, d = objects) : trailing cs = cs.length := by
  cases cs with
  | nil => rfl
  | cons c cs => rw [trailing_cons, if_pos h, List.length_cons]

theorem trailing_cons_of_ne (hc : c ≠ objects) (cs : List CStr) :
    trailing (c :: cs) = trailing cs := by
  rw [trailing_cons, if_neg fun h => hc (h c (by simp))]

/-- A hit and the component behind it leave the parity as it is. -/
theorem even_trailing_skip (d : CStr) (cs : List CStr) :
    Even (trailing (objects :: d :: cs)) ↔ Even (trailing cs) := by
  by_cases hcs : ∀ e ∈ cs, e = objects
  · by_cases hd : d = objects
    · have hall : ∀ e ∈ objects :: d :: cs, e = objects := by
        simpa [hd] using hcs
      rw [trailing_of_all hall, trailing_of_all hcs]
      simp only [List.length_cons, Nat.even_add_one, not_not]
    · rw [trailing_cons, if_neg fun h => hd (h d (by simp)), trailing_cons_of_ne hd]
  · rw [trailing_cons, if_neg fun h => hcs fun e he => h e (by simp [he]), trailing_cons,
      if_neg fun h => hcs fun e he => h e (by simp [he])]

/-- What the loop finds, by the components. -/
theorem scan_iff (cs : List CStr) :
    scan cs = true ↔ ∃ front rest, rest ≠ [] ∧ cs = front ++ objects :: rest ∧
      isOdbLayout (text rest) = true ∧ Even (trailing front) := by
  induction cs using scan.induct with
  | case1 => simp [scan]
  | case2 c =>
    constructor
    · intro h
      cases h
    · rintro ⟨front, rest, hrest, hcs, -⟩
      have hlength := congrArg List.length hcs
      have := List.length_pos_iff.2 hrest
      simp only [List.length_append, List.length_cons, List.length_nil] at hlength
      omega
  | case3 d cs ih =>
    rw [scan, if_pos rfl, Bool.or_eq_true, ih]
    constructor
    · rintro (hlayout | ⟨front, rest, hrest, rfl, hlayout, heven⟩)
      · exact ⟨[], d :: cs, by simp, rfl, hlayout, by simp [trailing]⟩
      · exact ⟨objects :: d :: front, rest, hrest, rfl, hlayout,
          (even_trailing_skip d front).2 heven⟩
    · rintro ⟨front, rest, hrest, hcs, hlayout, heven⟩
      match front with
      | [] =>
        rw [List.nil_append, List.cons.injEq] at hcs
        rw [hcs.2]
        exact .inl hlayout
      | [c] =>
        -- one directory of that name right above
        rw [List.singleton_append, List.cons.injEq] at hcs
        rw [← hcs.1] at heven
        exact absurd heven (by decide)
      | c :: e :: front =>
        simp only [List.cons_append, List.cons.injEq] at hcs
        obtain ⟨rfl, rfl, rfl⟩ := hcs
        exact .inr ⟨front, rest, hrest, rfl, hlayout, (even_trailing_skip d front).1 heven⟩
  | case4 c d cs hne ih =>
    rw [scan, if_neg hne, ih]
    constructor
    · rintro ⟨front, rest, hrest, hcs, hlayout, heven⟩
      refine ⟨c :: front, rest, hrest, by rw [hcs, List.cons_append], hlayout, ?_⟩
      rwa [trailing_cons_of_ne hne]
    · rintro ⟨front, rest, hrest, hcs, hlayout, heven⟩
      cases front with
      | nil =>
        rw [List.nil_append, List.cons.injEq] at hcs
        exact absurd hcs.1 hne
      | cons e front =>
        rw [List.cons_append, List.cons.injEq] at hcs
        refine ⟨front, rest, hrest, hcs.2, hlayout, ?_⟩
        rwa [← hcs.1, trailing_cons_of_ne hne] at heven

/-! ### One place in the store -/

theorem slash_ne_of_isXdigit {c : Char} (h : isXdigit c = true) : c ≠ '/' := by
  intro hc
  rw [hc] at h
  exact absurd h (by decide)

/-- A name of the store has two components, or three that start with `info`. -/
theorem Layout.pieces_eq (h : Layout rest) :
    (∃ c d, pieces '/' rest = [c, d]) ∨ ∃ c d, pieces '/' rest = [str "info", c, d] := by
  cases h with
  | @loose a b name ha hb hname _ =>
    have hab : '/' ∉ [a, b] := by
      simpa using ⟨(slash_ne_of_isXdigit ha).symm, (slash_ne_of_isXdigit hb).symm⟩
    have hfile : '/' ∉ name := fun h => slash_ne_of_isXdigit (hname _ h) rfl
    have hcut : a :: b :: '/' :: name = [a, b] ++ '/' :: name := rfl
    refine .inl ⟨[a, b], name, ?_⟩
    rw [hcut, pieces_append_sep, pieces_of_sepFree '/' hab, pieces_of_sepFree '/' hfile]
    rfl
  | @pack file hfile =>
    have hcut : str "pack/" ++ file = str "pack" ++ '/' :: file := rfl
    refine .inl ⟨str "pack", file, ?_⟩
    rw [hcut, pieces_append_sep, pieces_of_sepFree '/' (by decide),
      pieces_of_sepFree '/' hfile.2]
    rfl
  | @info file hfile =>
    have hcut : str "info/" ++ file = str "info" ++ '/' :: file := rfl
    refine .inl ⟨str "info", file, ?_⟩
    rw [hcut, pieces_append_sep, pieces_of_sepFree '/' (by decide),
      pieces_of_sepFree '/' hfile.2]
    rfl
  | @commitGraph file hfile =>
    have hcut : str "info/commit-graphs/" ++ file =
        str "info" ++ '/' :: (str "commit-graphs" ++ '/' :: file) := rfl
    refine .inr ⟨str "commit-graphs", file, ?_⟩
    rw [hcut, pieces_append_sep, pieces_append_sep, pieces_of_sepFree '/' (by decide),
      pieces_of_sepFree '/' (by decide), pieces_of_sepFree '/' hfile.2]
    rfl

/-- A path is at one place in a store. -/
theorem rest_unique {dirs dirs' : List CStr} {rest' : CStr} (hrest : Layout rest)
    (hrest' : Layout rest')
    (h : dirs ++ objects :: pieces '/' rest = dirs' ++ objects :: pieces '/' rest') :
    dirs = dirs' ∧ rest = rest' := by
  -- two components against three: `objects` would be `info`
  have hclash : ∀ ds ds' : List CStr, ∀ c d c' d' : CStr,
      ds ++ objects :: [c, d] ≠ ds' ++ objects :: [str "info", c', d'] := by
    intro ds ds' c d c' d' heq
    have hsplit : ds' ++ objects :: [str "info", c', d'] =
        (ds' ++ [objects]) ++ [str "info", c', d'] := by simp
    rw [hsplit] at heq
    have hlast := (List.append_inj' heq rfl).2
    simp only [List.cons.injEq] at hlast
    exact absurd hlast.1 (by decide)
  have hsame : (pieces '/' rest).length = (pieces '/' rest').length := by
    obtain ⟨c, d, hcd⟩ | ⟨c, d, hcd⟩ := hrest.pieces_eq
    · obtain ⟨c', d', hcd'⟩ | ⟨c', d', hcd'⟩ := hrest'.pieces_eq
      · rw [hcd, hcd']
        rfl
      · rw [hcd, hcd'] at h
        exact absurd h (hclash dirs dirs' c d c' d')
    · obtain ⟨c', d', hcd'⟩ | ⟨c', d', hcd'⟩ := hrest'.pieces_eq
      · rw [hcd, hcd'] at h
        exact absurd h.symm (hclash dirs' dirs c' d' c d)
      · rw [hcd, hcd']
        rfl
  have hinj := List.append_inj' h (by simp [hsame])
  refine ⟨hinj.1, ?_⟩
  have hpieces := (List.cons.inj hinj.2).2
  rw [← text_pieces rest, hpieces, text_pieces]

/-- The destinations that the loop finds: an even number of directories called
`objects` stands above the store. -/
theorem isGitOdbLinkDest_iff (path : CStr) :
    isGitOdbLinkDest path = true ↔ ∃ front rest, AtBoundary front ∧
      path = front ++ (str "objects/" ++ rest) ∧ Layout rest ∧ Even (objectsBefore front) := by
  rw [isGitOdbLinkDest_eq, scan_iff]
  constructor
  · rintro ⟨dirs, cs, hne, hpath, hlayout, heven⟩
    have hfree := sepFree_pieces '/' path
    rw [hpath] at hfree
    obtain ⟨front, hfront, rfl⟩ := exists_front fun c hc => hfree c (List.mem_append_left _ hc)
    have hcs : SepFree '/' cs := fun c hc => hfree c (by simp [hc])
    have hrest : pieces '/' (text cs) = cs := by
      cases cs with
      | nil => exact absurd rfl hne
      | cons c cs => exact pieces_text hcs
    refine ⟨front, text cs, hfront, ?_, isOdbLayout_iff.1 hlayout, heven⟩
    rw [decomposition_iff hfront, hrest, hpath]
  · rintro ⟨front, rest, hfront, hpath, hlayout, heven⟩
    refine ⟨_, pieces '/' rest, pieces_ne_nil rest, (decomposition_iff hfront).1 hpath, ?_,
      heven⟩
    rwa [text_pieces, isOdbLayout_iff]

/-- The loop finds nothing else, and it finds a destination unless an odd number of
directories called `objects` stands right above its store. -/
theorem finds_iff (path : CStr) :
    (isGitOdbLinkDest path = true ↔ IsLinkDest path) ↔
      ∀ front rest, AtBoundary front → path = front ++ (str "objects/" ++ rest) →
        Layout rest → Even (objectsBefore front) := by
  rw [isGitOdbLinkDest_iff]
  constructor
  · intro h front rest hfront hpath hrest
    obtain ⟨front', rest', hfront', hpath', hrest', heven⟩ :=
      h.2 ⟨front, rest, hfront, hpath, hrest⟩
    rw [decomposition_iff hfront] at hpath
    rw [decomposition_iff hfront'] at hpath'
    have hdirs := (rest_unique hrest hrest' (hpath.symm.trans hpath')).1
    rwa [objectsBefore, hdirs]
  · intro h
    constructor
    · rintro ⟨front, rest, hfront, hpath, hrest, -⟩
      exact ⟨front, rest, hfront, hpath, hrest⟩
    · rintro ⟨front, rest, hfront, hpath, hrest⟩
      exact ⟨front, rest, hfront, hpath, hrest, h front rest hfront hpath hrest⟩

/-- A store below a directory called `objects` is not found. -/
theorem nested_store_missed : ¬ ∀ path, isGitOdbLinkDest path = true ↔ IsLinkDest path := by
  intro h
  have hdest : IsLinkDest (str "/srv/objects/objects/pack/new.pack") :=
    ⟨str "/srv/objects/", str "pack/" ++ str "new.pack", .inr rfl, rfl, .pack ⟨by decide, by decide⟩⟩
  exact absurd ((h _).2 hdest) (by decide)

end NeoProot.GitObjects
