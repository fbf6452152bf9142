import NeoProot.Path.GuestList

/-!
# The lookup cache

The GUEST list carries a cache: its bindings sorted by the length of their guest paths, and
the host path of the root.  An insertion into GUEST and a removal drop it, the next lookup
builds it again.

## Main definitions

* `CachedBindings` — a table with its cache.
* `CachedBindings.Coherent` — the cache is that of the list.
* `CachedBindings.AnswersRoot`, `CachedBindings.AnswersLongest` — what a lookup has to give.
-/

namespace NeoProot

/-- A binding table with its `BindingCache`.  The entries are pointers: a store into a
binding is seen through them. -/
structure CachedBindings where
  bindings : Bindings
  entries : Option (List Binding)
  cachedRoot : Option CStr
  deriving DecidableEq, Repr

namespace CachedBindings

/-- `invalidate_binding_cache`. -/
def invalidate (c : CachedBindings) : CachedBindings := ⟨c.bindings, none, none⟩

/-- `build_guest_binding_cache`. -/
def buildGuestBindingCache (c : CachedBindings) : CachedBindings :=
  match c.entries with
  | some _ => c
  | none =>
    if c.bindings.guest = [] then c else ⟨c.bindings, some c.bindings.cacheEntries, c.cachedRoot⟩

/-- `find_best_prefix`. -/
def findBestPrefix (c : CachedBindings) (path : CStr) : Option Binding × CachedBindings :=
  let c := c.buildGuestBindingCache
  match c.entries with
  | none => (none, c)
  | some entries => (entries.find? (Bindings.matchesPrefix path), c)

/-- `get_binding`. -/
def getBinding (c : CachedBindings) (side : Side) (path : CStr) : Option Binding × CachedBindings :=
  if ¬ IsAbsolute path then (none, c)
  else if side = .guest then
    let (found, c) := c.findBestPrefix path
    match found with
    | some b => (some b, c)
    | none => ((c.bindings.head side).find? (Bindings.matchesRef side path), c)
  else ((c.bindings.head side).find? (Bindings.matchesRef side path), c)

/-- `get_root`. -/
def getRoot (c : CachedBindings) : Option CStr × CachedBindings :=
  match c.cachedRoot with
  | some host => (some host, c)
  | none =>
    match c.bindings.getRoot with
    | none => (none, c)
    | some host => (some host, ⟨c.bindings, c.entries, some host⟩)

/-- A change of the lists, which begins by dropping the cache. -/
def change (f : Bindings → Bindings) (c : CachedBindings) : CachedBindings :=
  { c.invalidate with bindings := f c.bindings }

/-- The stores of the mount calls, through the entries as well. -/
def setAttributes (c : CachedBindings) (addr : ℕ) (readonly sourceReadonly : Bool)
    (mountFlags sourceMountFlags : UInt64) : CachedBindings where
  bindings :=
    c.bindings.update addr (·.setAttributes readonly sourceReadonly mountFlags sourceMountFlags)
  entries := c.entries.map fun es => es.map fun b =>
    if b.addr = addr then b.setAttributes readonly sourceReadonly mountFlags sourceMountFlags else b
  cachedRoot := c.cachedRoot

/-! ### What a lookup has to give -/

/-- The cache is the one the list gives. -/
structure Coherent (c : CachedBindings) : Prop where
  entries : ∀ es, c.entries = some es →
    es.Perm c.bindings.guest ∧ es.Pairwise fun a b => b.guest.length ≤ a.guest.length
  cachedRoot : ∀ host, c.cachedRoot = some host → c.bindings.getRoot = some host

/-- The root binding is the last one of GUEST, and `get_root` gives its host path. -/
def AnswersRoot (c : CachedBindings) : Prop :=
  ∃ l root, c.bindings.guest = l ++ [root] ∧ root.guest = ['/'] ∧ c.getRoot.1 = some root.host

/-- Every GUEST lookup gives the binding with the longest prefix of the path, which is the
one that a scan of the list in prefix order gives. -/
def AnswersLongest (c : CachedBindings) : Prop :=
  ∀ path, IsAbsolute path → ∃ b ∈ c.bindings.guest,
    (c.getBinding .guest path).1 = some b ∧ comps b.guest <+: comps path ∧
      (∀ x ∈ c.bindings.guest, comps x.guest <+: comps path → comps x.guest <+: comps b.guest) ∧
      ∀ l, l.Perm c.bindings.guest → DeepFirst (Binding.key .guest) l →
        l.find? (Bindings.matchesRef .guest path) = some b

variable {c : CachedBindings}

theorem coherent_change (f : Bindings → Bindings) (c : CachedBindings) : (c.change f).Coherent :=
  ⟨by simp [change, invalidate], by simp [change, invalidate]⟩

theorem Coherent.build (h : c.Coherent) (hne : c.bindings.guest ≠ []) :
    c.buildGuestBindingCache.Coherent ∧ c.buildGuestBindingCache.bindings = c.bindings ∧
      ∃ es, c.buildGuestBindingCache.entries = some es := by
  cases hes : c.entries with
  | some es =>
    have hself : c.buildGuestBindingCache = c := by simp only [buildGuestBindingCache, hes]
    rw [hself]
    exact ⟨h, rfl, es, hes⟩
  | none =>
    simp only [buildGuestBindingCache, hes, if_neg hne]
    refine ⟨⟨fun es heq => ?_, h.cachedRoot⟩, trivial, _, rfl⟩
    rw [Option.some.injEq] at heq
    subst heq
    exact ⟨c.bindings.perm_cacheEntries, c.bindings.cacheEntries_sorted⟩

theorem bindings_getBinding (c : CachedBindings) (side : Side) (path : CStr) :
    (c.getBinding side path).2.bindings = c.bindings := by
  have hbuild : c.buildGuestBindingCache.bindings = c.bindings := by
    simp only [buildGuestBindingCache]
    split
    · rfl
    · split <;> rfl
  have hfind : (c.findBestPrefix path).2.bindings = c.bindings := by
    simp only [findBestPrefix]
    split <;> exact hbuild
  simp only [getBinding]
  split
  · rfl
  · split
    · split <;> exact hfind
    · rfl

theorem Coherent.getBinding (h : c.Coherent) (side : Side) (path : CStr) :
    (c.getBinding side path).2.Coherent := by
  have hbuild : c.buildGuestBindingCache.Coherent := by
    by_cases hne : c.bindings.guest = []
    · simp only [buildGuestBindingCache]
      split
      · exact h
      · rw [if_pos hne]
        exact h
    · exact (h.build hne).1
  have hfind : (c.findBestPrefix path).2.Coherent := by
    simp only [findBestPrefix]
    split <;> exact hbuild
  simp only [CachedBindings.getBinding]
  split
  · exact h
  · split
    · split <;> exact hfind
    · exact h

theorem Coherent.getRoot (h : c.Coherent) :
    c.getRoot.1 = c.bindings.getRoot ∧ c.getRoot.2.Coherent ∧ c.getRoot.2.bindings = c.bindings := by
  simp only [CachedBindings.getRoot]
  cases hcached : c.cachedRoot with
  | some host => exact ⟨(h.cachedRoot host hcached).symm, h, rfl⟩
  | none =>
    cases hroot : c.bindings.getRoot with
    | none => exact ⟨rfl, h, rfl⟩
    | some host =>
      refine ⟨rfl, ⟨h.entries, fun host' heq => ?_⟩, rfl⟩
      rw [← Option.some.inj heq]
      exact hroot

theorem getRoot_setAttributes {t : Bindings} (hpending : t.pending = []) (addr : ℕ) (r sr : Bool)
    (mf smf : UInt64) : (t.update addr (·.setAttributes r sr mf smf)).getRoot = t.getRoot := by
  have hsame : ∀ x : Binding,
      (if x.addr = addr then x.setAttributes r sr mf smf else x).guest = x.guest ∧
        (if x.addr = addr then x.setAttributes r sr mf smf else x).host = x.host := by
    intro x
    split <;> exact ⟨rfl, rfl⟩
  obtain hnil | ⟨l, root, hl⟩ := List.eq_nil_or_concat t.guest
  · simp [Bindings.getRoot, Bindings.update, hnil, hpending]
  · rw [List.concat_eq_append] at hl
    simp only [Bindings.getRoot, Bindings.update, hl, List.map_append, List.map_cons, List.map_nil,
      List.getLast?_append, List.getLast?_singleton, ne_eq, List.append_eq_nil_iff, List.cons_ne_self,
      and_false, not_false_eq_true, if_true, Option.some_or, hsame]

theorem Coherent.setAttributes (h : c.Coherent) (hpending : c.bindings.pending = []) (addr : ℕ)
    (r sr : Bool) (mf smf : UInt64) : (c.setAttributes addr r sr mf smf).Coherent := by
  refine ⟨fun es heq => ?_, fun host heq => ?_⟩
  · obtain ⟨es', hes', rfl⟩ := Option.map_eq_some_iff.1 heq
    obtain ⟨hperm, hsorted⟩ := h.entries es' hes'
    refine ⟨hperm.map _, List.pairwise_map.2 (hsorted.imp fun {a b} hab => ?_)⟩
    have hsame : ∀ x : Binding,
        (if x.addr = addr then x.setAttributes r sr mf smf else x).guest = x.guest := by
      intro x
      split <;> rfl
    rw [hsame, hsame]
    exact hab
  · exact (getRoot_setAttributes hpending addr r sr mf smf).trans (h.cachedRoot host heq)

/-- **Lookups through a coherent cache.** -/
theorem Coherent.answers (h : c.Coherent) (hkept : c.bindings.GuestKept)
    (hlast : c.bindings.RootLast) : c.AnswersRoot ∧ c.AnswersLongest := by
  obtain ⟨l, root, hl, hroot⟩ := hlast
  have hrootmem : root ∈ c.bindings.guest := by simp [hl]
  constructor
  · refine ⟨l, root, hl, hroot, ?_⟩
    have hself : comparePaths root.guest ['/'] = .pathsAreEqual := by
      rw [hroot]
      decide
    rw [h.getRoot.1]
    simp [Bindings.getRoot, hl, hself]
  · intro path hpath
    obtain ⟨hbuild, hbind, es, hes⟩ := h.build fun hnil => by simp [hnil] at hrootmem
    obtain ⟨hperm, hsorted⟩ := hbuild.entries es hes
    rw [hbind] at hperm
    -- The root matches every path, so the cache has an answer.
    have hrootm : Bindings.matchesPrefix path root = true := by
      rw [matchesPrefix_iff hpath (hkept.canonical root hrootmem), hroot]
      exact List.nil_prefix
    cases hfind : es.find? (Bindings.matchesPrefix path) with
    | none => exact absurd hrootm (List.find?_eq_none.1 hfind root (hperm.mem_iff.2 hrootmem))
    | some b =>
      obtain ⟨hbmem, hbp, hlongest⟩ := Bindings.find_sorted hperm hsorted hkept.canonical hpath hfind
      refine ⟨b, hbmem, ?_, hbp, hlongest, fun l' hperm' hord => ?_⟩
      · simp [CachedBindings.getBinding, hpath, findBestPrefix, hes, hfind]
      · have hmatch : ∀ x ∈ l', Bindings.matchesRef .guest path x =
            decide (x.key .guest <+: comps path) := by
          intro x hx
          rw [Bool.eq_iff_iff, decide_eq_true_iff]
          exact Bindings.matchesRef_iff hpath (hkept.canonical x (hperm'.mem_iff.1 hx)).1
        cases hscan : l'.find? (Bindings.matchesRef .guest path) with
        | none =>
          have hnot := List.find?_eq_none.1 hscan b (hperm'.mem_iff.2 hbmem)
          rw [hmatch b (hperm'.mem_iff.2 hbmem), decide_eq_true_eq] at hnot
          exact absurd hbp hnot
        | some b' =>
          have hb' := hperm'.mem_iff.1 (List.mem_of_find?_eq_some hscan)
          have hb'p : comps b'.guest <+: comps path := by
            have hm := List.find?_some hscan
            rwa [hmatch b' (hperm'.mem_iff.2 hb'), decide_eq_true_eq] at hm
          have hle := hlongest b' hb' hb'p
          have hge : comps b.guest <+: comps b'.guest := by
            refine hord.find_longest (q := comps path) ?_ b (hperm'.mem_iff.2 hbmem) hbp
            rw [← hscan, ← List.head?_filter, ← List.head?_filter]
            exact congrArg List.head? (List.filter_congr fun x hx => (hmatch x hx).symm)
          have heq := hkept.eq_of_guest hb' hbmem (canonical_ext (hkept.canonical b' hb')
            (hkept.canonical b hbmem) (hle.eq_of_length_le hge.length_le))
          rw [heq]

end CachedBindings
end NeoProot
