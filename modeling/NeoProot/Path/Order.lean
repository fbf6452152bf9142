import NeoProot.Path.Binding
import NeoProot.Lib.Run

/-!
# The order of the binding lists

A linear search of a list finds the deepest binding only if every path stands
before the paths it extends.  `insortBinding` looks for the place with two
cursors and takes the position of the first element for "not found", so a list
whose first element is already a prefix of the new path, with another prefix
further back, gets the new path behind its first prefix.

`insortBinding_spec` says what an insertion does to a list, `deepFirst_insort_iff`
when it keeps the order, and `ordered_run_iff` carries that over whole runs.

## Main definitions

* `Ordered` — all three lists are ordered.
* `Misplaced` — the lists for which an insertion breaks the order.
* `Op`, `step`, `run` — the operations on a table and their runs.
-/

namespace NeoProot

variable {b : Binding} {path : CStr} {t : Bindings}

/-- The components a binding is listed under. -/
def Binding.key (side : Side) (b : Binding) : List CStr := comps (b.ref side)

/-- Both paths of a layer start at the root. -/
def Layer.Absolute (l : Layer) : Prop := IsAbsolute l.host ∧ IsAbsolute l.guest

/-- Both paths of a binding start at the root, and so do those it covers. -/
def Binding.Absolute (b : Binding) : Prop := b.toLayer.Absolute ∧ ∀ l ∈ b.covered, l.Absolute

theorem Binding.Absolute.ref (h : b.Absolute) (side : Side) : IsAbsolute (b.ref side) := by
  cases side
  · exact h.1.2
  · exact h.1.1
  · exact h.1.2

theorem Binding.Absolute.coveredBinding {c : Binding} (h : b.Absolute)
    (hc : b.coveredBinding = some c) : c.Absolute := by
  unfold Binding.coveredBinding at hc
  cases hcov : b.covered with
  | nil => simp [hcov] at hc
  | cons l ls =>
    simp only [hcov, Option.some.injEq] at hc
    subst hc
    exact ⟨h.2 l (by simp [hcov]), fun m hm => h.2 m (by simp [hcov, hm])⟩

namespace Bindings

/-- Every binding of the table is absolute. -/
def Absolute (t : Bindings) : Prop := ∀ side, ∀ b ∈ t.head side, b.Absolute

/-- In each list every path stands before the paths it extends. -/
def Ordered (t : Bindings) : Prop := ∀ side, DeepFirst (Binding.key side) (t.head side)

@[simp] theorem head_removeBindingFromAllLists (t : Bindings) (addr : ℕ) (side : Side) :
    (t.removeBindingFromAllLists addr).head side = (t.head side).filter (·.addr ≠ addr) := by
  cases side <;> rfl

@[simp] theorem head_update (t : Bindings) (addr : ℕ) (f : Binding → Binding) (side : Side) :
    (t.update addr f).head side = (t.head side).map fun b => if b.addr = addr then f b else b := by
  cases side <;> rfl

end Bindings

/-- The stores after an insertion leave both paths alone. -/
theorem key_setAttributes_ite (side : Side) (b : Binding) (p : Prop) [Decidable p]
    (r sr : Bool) (mf smf : UInt64) :
    (if p then b.setAttributes r sr mf smf else b).key side = b.key side := by
  split
  · cases side <;> rfl
  · rfl

/-! ## Where an insertion puts a binding -/

section Scan

variable (key : Binding → List CStr) (k : List CStr)

/-- `prev` is the last of the passed elements `pre` that extends the new path. -/
private structure PrevInv (pre : List Binding) (prev : Option ℕ) : Prop where
  ofNone : prev = none → ∀ x ∈ pre, ¬ StrictPrefix k (key x)
  ofSome : ∀ i, prev = some i → ∃ x, pre[i]? = some x ∧ StrictPrefix k (key x) ∧
    ∀ y ∈ pre.drop (i + 1), ¬ StrictPrefix k (key y)

/-- `next` is the first of the passed elements that is a prefix of the new path,
the first element of the list left out. -/
private structure NextInv (pre : List Binding) (next : ℕ) : Prop where
  ofZero : next = 0 → ∀ y ∈ pre.drop 1, ¬ StrictPrefix (key y) k
  ofPos : next ≠ 0 → ∃ y, pre[next]? = some y ∧ StrictPrefix (key y) k ∧
    ∀ z ∈ (pre.take next).drop 1, ¬ StrictPrefix (key z) k

variable {key k}
variable {pre : List Binding} {prev : Option ℕ} {next : ℕ} {x : Binding}

private theorem getElem?_snoc_of_lt {i : ℕ} {y : Binding} (h : pre[i]? = some y) :
    (pre ++ [x])[i]? = some y := by
  rw [List.getElem?_append_left (List.getElem?_eq_some_iff.1 h).1, h]

private theorem PrevInv.keep (h : PrevInv key k pre prev) (hx : ¬ StrictPrefix k (key x)) :
    PrevInv key k (pre ++ [x]) prev where
  ofNone := by
    intro hp y hy
    rcases List.mem_append.1 hy with hy | hy
    · exact h.ofNone hp y hy
    · rwa [List.mem_singleton.1 hy]
  ofSome := by
    intro i hi
    obtain ⟨y, hy, hky, hrest⟩ := h.ofSome i hi
    have hlt := (List.getElem?_eq_some_iff.1 hy).1
    refine ⟨y, getElem?_snoc_of_lt hy, hky, ?_⟩
    intro z hz
    rw [List.drop_append_of_le_length (by omega)] at hz
    rcases List.mem_append.1 hz with hz | hz
    · exact hrest z hz
    · rwa [List.mem_singleton.1 hz]

private theorem PrevInv.take (hx : StrictPrefix k (key x)) :
    PrevInv key k (pre ++ [x]) (some pre.length) where
  ofNone := by simp
  ofSome := by
    intro i hi
    obtain rfl : pre.length = i := by simpa using hi
    exact ⟨x, by simp, hx, by simp⟩

private theorem NextInv.keep (h : NextInv key k pre next)
    (hx : next = 0 → pre ≠ [] → ¬ StrictPrefix (key x) k) : NextInv key k (pre ++ [x]) next where
  ofZero := by
    intro hn y hy
    cases pre with
    | nil => simp at hy
    | cons p ps =>
      rw [List.drop_append_of_le_length (by simp)] at hy
      rcases List.mem_append.1 hy with hy | hy
      · exact h.ofZero hn y hy
      · rw [List.mem_singleton.1 hy]
        exact hx hn (by simp)
  ofPos := by
    intro hn
    obtain ⟨y, hy, hky, hrest⟩ := h.ofPos hn
    have hlt := (List.getElem?_eq_some_iff.1 hy).1
    refine ⟨y, getElem?_snoc_of_lt hy, hky, ?_⟩
    rwa [List.take_append_of_le_length (by omega)]

/-- Position 0 still reads as "not found", so a prefix in front does not stop the
search for the next one. -/
private theorem NextInv.take (h : NextInv key k pre 0) (hx : StrictPrefix (key x) k) :
    NextInv key k (pre ++ [x]) pre.length where
  ofZero := by
    intro hn
    rw [List.length_eq_zero_iff.1 hn]
    simp
  ofPos := by
    intro _
    refine ⟨x, by simp, hx, ?_⟩
    rw [List.take_left]
    exact h.ofZero rfl

/-- What the outcome of the scan says about the scanned list `l`. -/
private def ScanSpec (side : Side) (key : Binding → List CStr) (k : List CStr)
    (l : List Binding) : Scan → Prop
  | .duplicate i =>
    side ≠ .host ∧ (∃ x, l[i]? = some x ∧ key x = k) ∧ ∀ y ∈ l.take i, key y ≠ k
  | .place (some i) _ =>
    (∃ x, l[i]? = some x ∧ k <+: key x ∧
      (key x = k ∨ ∀ y ∈ l.drop (i + 1), ¬ StrictPrefix k (key y))) ∧
    (side ≠ .host → ∀ x ∈ l, key x ≠ k)
  | .place none next => (∀ x ∈ l, ¬ k <+: key x) ∧ NextInv key k l next

/-- The loop keeps both cursor invariants; the induction is on the elements left. -/
private theorem scan_spec (side : Side) (hpath : IsAbsolute path) (pre rest : List Binding)
    (prev : Option ℕ) (next : ℕ) (hrest : ∀ x ∈ rest, IsAbsolute (x.ref side))
    (hne : ∀ x ∈ pre, x.key side ≠ comps path)
    (hprev : PrevInv (Binding.key side) (comps path) pre prev)
    (hnext : NextInv (Binding.key side) (comps path) pre next) :
    ScanSpec side (Binding.key side) (comps path) (pre ++ rest)
      (scan side path pre.length prev next rest) := by
  induction rest generalizing pre prev next with
  | nil =>
    rw [List.append_nil, scan]
    cases prev with
    | none =>
      refine ⟨fun x hx hk => ?_, hnext⟩
      exact hprev.ofNone rfl x hx ⟨hk, Ne.symm (hne x hx)⟩
    | some i =>
      obtain ⟨x, hx, hk, hlater⟩ := hprev.ofSome i rfl
      exact ⟨⟨x, hx, hk.1, .inr hlater⟩, fun _ => hne⟩
  | cons x rest ih =>
    have hxabs := hrest x (by simp)
    have hmid : (pre ++ x :: rest)[pre.length]? = some x := by simp
    have hsnoc : pre ++ x :: rest = (pre ++ [x]) ++ rest := by simp
    have hlen : (pre ++ [x]).length = pre.length + 1 := by simp
    have hne' : x.key side ≠ comps path → ∀ y ∈ pre ++ [x], y.key side ≠ comps path := by
      intro h y hy
      rcases List.mem_append.1 hy with hy | hy
      · exact hne y hy
      · rwa [List.mem_singleton.1 hy]
    have ih' := fun {prev next} => ih (pre ++ [x]) prev next fun y hy => hrest y (by simp [hy])
    rw [hlen, ← hsnoc] at ih'
    rw [scan, comparePaths2_eq hpath hxabs, compareComps]
    change x.key side ≠ _ → _ at hne'
    by_cases heq : comps path = comps (x.ref side)
    · rw [if_pos heq]
      by_cases hside : side = .host
      · simp only [hside, if_true]
        rw [← hside]
        refine ⟨⟨x, hmid, ?_, .inl heq.symm⟩, fun h => absurd hside h⟩
        exact heq ▸ List.prefix_rfl
      · simp only [hside, if_false]
        refine ⟨hside, ⟨x, hmid, heq.symm⟩, ?_⟩
        rwa [List.take_left]
    · rw [if_neg heq]
      have hxne : x.key side ≠ comps path := fun h => heq h.symm
      by_cases hdeep : comps path <+: comps (x.ref side)
      · rw [if_pos hdeep]
        have hup : ¬ StrictPrefix (x.key side) (comps path) := fun h =>
          absurd h.length_lt (by have := hdeep.length_le; unfold Binding.key; omega)
        exact ih' (hne' hxne) (PrevInv.take ⟨hdeep, heq⟩) (hnext.keep fun _ _ => hup)
      · rw [if_neg hdeep]
        have hprev' := hprev.keep (x := x) (fun h => hdeep h.1)
        by_cases hup : comps (x.ref side) <+: comps path
        · rw [if_pos hup]
          by_cases hzero : next = 0
          · subst hzero
            exact ih' (hne' hxne) hprev' (hnext.take ⟨hup, hxne⟩)
          · simp only [hzero, if_false]
            exact ih' (hne' hxne) hprev' (hnext.keep fun h => absurd h hzero)
        · rw [if_neg hup]
          exact ih' (hne' hxne) hprev' (hnext.keep fun _ _ h => hup h.1)

end Scan

/-- How the scan of an insertion without a duplicate splits the list. -/
inductive Place (key : Binding → List CStr) (k : List CStr) : List Binding → List Binding → Prop
  /-- Behind the last element that extends the new path, or behind an equal one. -/
  | behind {l₁ l₂ : List Binding} (x : Binding) (hx : k <+: key x)
      (hrest : key x = k ∨ ∀ y ∈ l₂, ¬ StrictPrefix k (key y)) : Place key k (l₁ ++ [x]) l₂
  /-- At the head: no prefix of the new path behind the first element. -/
  | atHead {l₂ : List Binding} (hdeep : ∀ x ∈ l₂, ¬ k <+: key x)
      (hrest : ∀ y ∈ l₂.drop 1, ¬ StrictPrefix (key y) k) : Place key k [] l₂
  /-- In front of a prefix of the new path that is not the first element. -/
  | before {x y : Binding} {l₁ l₂ : List Binding}
      (hdeep : ∀ z ∈ (x :: l₁) ++ y :: l₂, ¬ k <+: key z) (hy : StrictPrefix (key y) k)
      (hrest : ∀ z ∈ l₁, ¬ StrictPrefix (key z) k) : Place key k (x :: l₁) (y :: l₂)

/-- The lists that put a new path `k` behind its first prefix: nothing in them is
as deep as `k`, the first element is a prefix of `k`, and so is a later one. -/
def Misplaced (key : Binding → List CStr) (k : List CStr) : List Binding → Prop
  | [] => False
  | first :: rest =>
    (∀ x ∈ first :: rest, ¬ k <+: key x) ∧ key first <+: k ∧ ∃ y ∈ rest, key y <+: k

instance (key : Binding → List CStr) (k : List CStr) :
    (l : List Binding) → Decidable (Misplaced key k l)
  | [] => inferInstanceAs (Decidable False)
  | first :: rest => inferInstanceAs (Decidable
      ((∀ x ∈ first :: rest, ¬ k <+: key x) ∧ key first <+: k ∧ ∃ y ∈ rest, key y <+: k))

namespace Place

variable {key : Binding → List CStr} {k : List CStr} {l₁ l₂ : List Binding}

/-- Nothing behind the chosen place extends the new path. -/
theorem not_deeper (h : Place key k l₁ l₂) (hord : DeepFirst key (l₁ ++ l₂)) :
    ∀ y ∈ l₂, ¬ StrictPrefix k (key y) := by
  cases h with
  | behind x hx hrest =>
    rcases hrest with heq | hrest
    · intro y hy hky
      have := (List.pairwise_append.1 hord).2.2 x (by simp) y hy
      exact this (heq ▸ hky)
    · exact hrest
  | atHead hdeep hrest => exact fun y hy hky => hdeep y hy hky.1
  | before hdeep hy hrest =>
    exact fun z hz hkz => hdeep z (List.mem_append.2 (.inr hz)) hkz.1

/-- A prefix of the new path stands in front of the chosen place only in a list
that misplaces it. -/
theorem not_shallower_iff (h : Place key k l₁ l₂) (hord : DeepFirst key (l₁ ++ l₂)) :
    (∀ x ∈ l₁, ¬ StrictPrefix (key x) k) ↔ ¬ Misplaced key k (l₁ ++ l₂) := by
  cases h with
  | @behind l₁ _ x hx hrest =>
    refine iff_of_true ?_ ?_
    · intro y hy hyk
      rcases List.mem_append.1 hy with hy | hy
      · have hord' := (List.pairwise_append.1 hord).1
        exact (List.pairwise_append.1 hord').2.2 y hy x (by simp) (hyk.trans_isPrefix hx)
      · rw [List.mem_singleton.1 hy] at hyk
        exact absurd hyk.length_lt (by have := hx.length_le; omega)
    · intro hmis
      have hmem : x ∈ (l₁ ++ [x]) ++ l₂ := by simp
      cases hl : (l₁ ++ [x]) ++ l₂ with
      | nil => simp at hl
      | cons first rest =>
        rw [hl] at hmis hmem
        exact hmis.1 x hmem hx
  | atHead hdeep hrest =>
    refine iff_of_true (by simp) ?_
    cases l₂ with
    | nil => exact id
    | cons first rest =>
      rintro ⟨-, -, y, hy, hyk⟩
      refine hrest y (by simpa using hy) ⟨hyk, fun heq => ?_⟩
      exact hdeep y (by simp [hy]) (heq ▸ List.prefix_rfl)
  | @before x y l₁ l₂ hdeep hy hrest =>
    constructor
    · rintro hall ⟨-, hxk, -⟩
      refine hall x (by simp) ⟨hxk, fun heq => ?_⟩
      exact hdeep x (by simp) (heq ▸ List.prefix_rfl)
    · intro hmis z hz hzk
      rcases List.mem_cons.1 hz with rfl | hz
      · exact hmis ⟨hdeep, hzk.1, y, by simp, hy.1⟩
      · exact hrest z hz hzk

/-- **An insertion keeps the order exactly when the list does not misplace it.** -/
theorem deepFirst_iff (h : Place key k l₁ l₂) (hord : DeepFirst key (l₁ ++ l₂)) (hb : key b = k) :
    DeepFirst key (l₁ ++ b :: l₂) ↔ ¬ Misplaced key k (l₁ ++ l₂) := by
  subst hb
  rw [DeepFirst.insert_iff, ← h.not_shallower_iff hord]
  exact ⟨fun h' => h'.2.1, fun h' => ⟨hord, h', h.not_deeper hord⟩⟩

end Place

namespace Bindings

/-- **What `insort_binding` does to a table.**  It replaces the binding with the
same guest path, or it puts the new one at the place the scan found. -/
theorem insortBinding_spec (t : Bindings) (side : Side) (b : Binding)
    (hb : IsAbsolute (b.ref side)) (ht : ∀ x ∈ t.head side, IsAbsolute (x.ref side)) :
    (∃ l₁ it l₂, side ≠ .host ∧ t.head side = l₁ ++ it :: l₂ ∧ it.key side = b.key side ∧
      (∀ x ∈ l₁, x.key side ≠ b.key side) ∧
      t.insortBinding side b =
        ((t.setHead side (l₁ ++ it :: b.covering it :: l₂)).removeBindingFromAllLists it.addr,
          b.covering it)) ∨
    (∃ l₁ l₂, t.head side = l₁ ++ l₂ ∧
      (side ≠ .host → ∀ x ∈ t.head side, x.key side ≠ b.key side) ∧
      Place (Binding.key side) (b.key side) l₁ l₂ ∧
      t.insortBinding side b = (t.setHead side (l₁ ++ b :: l₂), b)) := by
  have hspec := scan_spec side hb [] (t.head side) none 0 ht (by simp) ⟨by simp, by simp⟩
    ⟨by simp, by simp⟩
  rw [List.nil_append, List.length_nil] at hspec
  change ScanSpec side (Binding.key side) (b.key side) _ _ at hspec
  cases hscan : scan side (b.ref side) 0 none 0 (t.head side) with
  | duplicate i =>
    rw [hscan] at hspec
    obtain ⟨hside, ⟨it, hi, hkey⟩, hfirst⟩ := hspec
    obtain ⟨hlt, hget⟩ := List.getElem?_eq_some_iff.1 hi
    refine .inl ⟨(t.head side).take i, it, (t.head side).drop (i + 1), hside, ?_, hkey,
      hfirst, ?_⟩
    · rw [← hget, List.getElem_cons_drop, List.take_append_drop]
    · have htake : (t.head side).take (i + 1) = (t.head side).take i ++ [it] := by
        rw [List.take_add_one, hi]
        rfl
      simp only [insortBinding, hscan, hi, insertAt, htake, List.append_assoc,
        List.singleton_append]
  | place prev next =>
    rw [hscan] at hspec
    right
    cases prev with
    | some i =>
      obtain ⟨⟨x, hi, hkx, hrest⟩, hne⟩ := hspec
      have htake : (t.head side).take (i + 1) = (t.head side).take i ++ [x] := by
        rw [List.take_add_one, hi]
        rfl
      refine ⟨_, _, (List.take_append_drop (i + 1) _).symm, hne, ?_, ?_⟩
      · rw [htake]
        exact .behind x hkx hrest
      · simp only [insortBinding, hscan, insertAt]
    | none =>
      obtain ⟨hdeep, hnext⟩ := hspec
      have hne : side ≠ .host → ∀ x ∈ t.head side, x.key side ≠ b.key side :=
        fun _ x hx h => hdeep x hx (h ▸ List.prefix_rfl)
      by_cases hzero : next = 0
      · refine ⟨[], t.head side, rfl, hne, ?_, ?_⟩
        · exact .atHead hdeep (hnext.ofZero hzero)
        · simp [insortBinding, hscan, hzero, insertAt]
      · obtain ⟨y, hy, hyk, hrest⟩ := hnext.ofPos hzero
        obtain ⟨hlt, hget⟩ := List.getElem?_eq_some_iff.1 hy
        refine ⟨_, _, (List.take_append_drop next _).symm, hne, ?_, ?_⟩
        · have hdrop : (t.head side).drop next = y :: (t.head side).drop (next + 1) := by
            rw [← hget, List.getElem_cons_drop]
          have hsplit := List.take_append_drop next (t.head side)
          cases htake : (t.head side).take next with
          | nil =>
            have := congrArg List.length htake
            simp only [List.length_take, List.length_nil] at this
            omega
          | cons x l₁ =>
            rw [hdrop]
            rw [htake, hdrop] at hsplit
            refine .before (fun z hz => hdeep z (hsplit ▸ hz)) hyk ?_
            rwa [htake] at hrest
        · simp [insortBinding, hscan, hzero, insertAt]

/-- One insertion keeps the order of a table exactly when the list it goes into
does not misplace it. -/
theorem ordered_insortBinding_iff (side : Side) (hord : t.Ordered) (ht : t.Absolute)
    (hb : b.Absolute) :
    (t.insortBinding side b).1.Ordered ↔
      ¬ Misplaced (Binding.key side) (b.key side) (t.head side) := by
  have habs : ∀ x ∈ t.head side, IsAbsolute (x.ref side) := fun x hx => (ht side x hx).ref side
  rcases insortBinding_spec t side b (hb.ref side) habs with
    ⟨l₁, it, l₂, hside, hl, hkey, -, hres⟩ | ⟨l₁, l₂, hl, -, hplace, hres⟩
  · -- The duplicate has the key of the new binding, so the new one may take its place.
    refine iff_of_true ?_ ?_
    · rw [hres]
      intro other
      rw [head_removeBindingFromAllLists]
      by_cases hother : other = side
      · subst hother
        rw [head_setHead]
        refine DeepFirst.sublist ?_ List.filter_sublist
        have hord' := hord other
        rw [hl] at hord'
        have hcov : (b.covering it).key other = it.key other := hkey.symm
        rw [show l₁ ++ it :: b.covering it :: l₂ = (l₁ ++ [it]) ++ b.covering it :: l₂ by simp,
          DeepFirst.insert_iff, hcov]
        refine ⟨by simpa using hord', ?_, ?_⟩
        · intro x hx hxk
          rcases List.mem_append.1 hx with hx | hx
          · exact (List.pairwise_append.1 hord').2.2 x hx it (by simp) hxk
          · rw [List.mem_singleton.1 hx] at hxk
            exact StrictPrefix.irrefl _ hxk
        · exact (List.pairwise_cons.1 (List.pairwise_append.1 hord').2.1).1
      · rw [head_setHead_of_ne _ hother]
        exact (hord other).sublist List.filter_sublist
    · intro hmis
      have hmem : it ∈ t.head side := by simp [hl]
      cases hlist : t.head side with
      | nil => simp [hlist] at hmem
      | cons first rest =>
        rw [hlist] at hmis hmem
        exact hmis.1 it hmem (hkey ▸ List.prefix_rfl)
  · have hside := hord side
    rw [hl] at hside ⊢
    rw [hres, ← hplace.deepFirst_iff hside rfl]
    constructor
    · intro h
      simpa using h side
    · intro h other
      by_cases hother : other = side
      · subst hother
        rwa [head_setHead]
      · rw [head_setHead_of_ne _ hother]
        exact hord other

/-- The binding an insertion returns is the one it was given, put on top of the
duplicate if there is one. -/
theorem insortBinding_snd (t : Bindings) (side : Side) (b : Binding)
    (hb : IsAbsolute (b.ref side)) (ht : ∀ x ∈ t.head side, IsAbsolute (x.ref side)) :
    (t.insortBinding side b).2 = b ∨
      ∃ it ∈ t.head side, (t.insortBinding side b).2 = b.covering it := by
  rcases insortBinding_spec t side b hb ht with
    ⟨l₁, it, l₂, -, hl, -, -, hres⟩ | ⟨l₁, l₂, -, -, -, hres⟩
  · exact .inr ⟨it, by simp [hl], by rw [hres]⟩
  · exact .inl (by rw [hres])

/-- An insertion adds nothing to a table but the binding it returns. -/
theorem mem_insortBinding {side : Side} (hb : IsAbsolute (b.ref side))
    (ht : ∀ x ∈ t.head side, IsAbsolute (x.ref side)) {other : Side} {x : Binding}
    (hx : x ∈ (t.insortBinding side b).1.head other) :
    x ∈ t.head other ∨ x = (t.insortBinding side b).2 := by
  have hset : ∀ l, x ∈ (t.setHead side l).head other → x ∈ t.head other ∨ (other = side ∧ x ∈ l) := by
    intro l hl
    by_cases hother : other = side
    · subst hother
      exact .inr ⟨rfl, by simpa using hl⟩
    · rw [head_setHead_of_ne _ hother] at hl
      exact .inl hl
  rcases insortBinding_spec t side b hb ht with
    ⟨l₁, it, l₂, -, hl, -, -, hres⟩ | ⟨l₁, l₂, hl, -, -, hres⟩
  · rw [hres] at hx ⊢
    rw [head_removeBindingFromAllLists] at hx
    rcases hset _ (List.mem_of_mem_filter hx) with hold | ⟨rfl, hnew⟩
    · exact .inl hold
    · rw [hl]
      simp only [List.mem_append, List.mem_cons] at hnew ⊢
      tauto
  · rw [hres] at hx ⊢
    rcases hset _ hx with hold | ⟨rfl, hnew⟩
    · exact .inl hold
    · rw [hl]
      simp only [List.mem_append, List.mem_cons] at hnew ⊢
      tauto

theorem Absolute.refs (h : t.Absolute) (side other : Side) :
    ∀ x ∈ t.head side, IsAbsolute (x.ref other) :=
  fun x hx => (h side x hx).ref other

theorem Absolute.removeBindingFromAllLists (h : t.Absolute) (addr : ℕ) :
    (t.removeBindingFromAllLists addr).Absolute := by
  intro side b hb
  rw [head_removeBindingFromAllLists] at hb
  exact h side b (List.mem_of_mem_filter hb)

theorem Absolute.insortBinding (h : t.Absolute) (hb : b.Absolute) (side : Side) :
    (t.insortBinding side b).1.Absolute ∧ (t.insortBinding side b).2.Absolute := by
  have hsnd : (t.insortBinding side b).2.Absolute := by
    rcases insortBinding_snd t side b (hb.ref side) (h.refs side side) with hres | ⟨it, hit, hres⟩
    · rwa [hres]
    · have hitabs := h side it hit
      rw [hres]
      refine ⟨hb.1, fun m hm => ?_⟩
      rcases List.mem_cons.1 hm with rfl | hm
      · exact hitabs.1
      · exact hitabs.2 m hm
  refine ⟨fun other x hx => ?_, hsnd⟩
  rcases mem_insortBinding (hb.ref side) (h.refs side side) hx with hx | rfl
  · exact h other x hx
  · exact hsnd

/-- The HOST list once the binding of the same guest path has left it. -/
def uncoveredHost (t : Bindings) (guest : CStr) : List Binding :=
  match t.guest.find? fun x => decide (comparePaths2 guest x.guest = .pathsAreEqual) with
  | some it => t.host.filter (·.addr ≠ it.addr)
  | none => t.host

/-- The paths `host` and `guest` are placed in order in both live lists. -/
def Fits (t : Bindings) (host guest : CStr) : Prop :=
  ¬ Misplaced (Binding.key .guest) (comps guest) t.guest ∧
    ¬ Misplaced (Binding.key .host) (comps host) (t.uncoveredHost guest)

instance (t : Bindings) (host guest : CStr) : Decidable (t.Fits host guest) :=
  inferInstanceAs (Decidable (_ ∧ _))

theorem comparePaths2_eq_equal_iff {p q : CStr} (hp : IsAbsolute p) (hq : IsAbsolute q) :
    comparePaths2 p q = .pathsAreEqual ↔ comps p = comps q := by
  rw [comparePaths2_eq hp hq, compareComps]
  split
  · simpa
  · split
    · simpa
    · split <;> simpa

/-- The insertion into GUEST takes from HOST what `uncoveredHost` leaves out. -/
theorem insortBinding_guest_host (ht : t.Absolute) (hb : b.Absolute) :
    (t.insortBinding .guest b).1.host = t.uncoveredHost b.guest := by
  have hfind : ∀ x ∈ t.guest, (decide (comparePaths2 b.guest x.guest = .pathsAreEqual) = true ↔
      x.key .guest = b.key .guest) := by
    intro x hx
    rw [decide_eq_true_iff, comparePaths2_eq_equal_iff hb.1.2 (ht .guest x hx).1.2]
    exact eq_comm
  unfold uncoveredHost
  rcases insortBinding_spec t .guest b hb.1.2 (ht.refs .guest .guest) with
    ⟨l₁, it, l₂, -, hl, hkey, hfirst, hres⟩ | ⟨l₁, l₂, hl, hne, -, hres⟩
  · change t.guest = _ at hl
    have hsome : t.guest.find? (fun x => decide (comparePaths2 b.guest x.guest = .pathsAreEqual)) =
        some it := by
      rw [List.find?_eq_some_iff_append]
      refine ⟨(hfind it (by simp [hl])).2 hkey, l₁, l₂, hl, fun x hx => ?_⟩
      have hx' := (hfind x (by simp [hl, hx])).not.2 (hfirst x hx)
      simpa using hx'
    rw [hres, hsome]
    rfl
  · have hnone : t.guest.find? (fun x => decide (comparePaths2 b.guest x.guest = .pathsAreEqual)) =
        none := by
      rw [List.find?_eq_none]
      exact fun x hx => (hfind x hx).not.2 (hne (by simp) x hx)
    rw [hres, hnone]
    rfl

theorem Absolute.insortBinding2 (h : t.Absolute) (hb : b.Absolute) :
    (t.insortBinding2 b).1.Absolute := by
  have habs := h.insortBinding (b := b.withSubstitution) hb .guest
  exact (habs.1.insortBinding habs.2 .host).1

/-- An insertion into both live lists keeps the order exactly when both places
are right. -/
theorem ordered_insortBinding2_iff (hord : t.Ordered) (ht : t.Absolute) (hb : b.Absolute) :
    (t.insortBinding2 b).1.Ordered ↔ t.Fits b.host b.guest := by
  let b' : Binding := b.withSubstitution
  have hb' : b'.Absolute := hb
  have hguest := ordered_insortBinding_iff .guest hord ht hb'
  have habs := ht.insortBinding hb' .guest
  have hkey : (t.insortBinding .guest b').2.key .host = b.key .host := by
    rcases insortBinding_snd t .guest b' hb.1.2 (ht.refs .guest .guest) with hres | ⟨it, -, hres⟩ <;>
      rw [hres] <;> rfl
  change ((t.insortBinding .guest b').1.insortBinding .host (t.insortBinding .guest b').2).1.Ordered ↔ _
  by_cases hmis : Misplaced (Binding.key .guest) (b.key .guest) t.guest
  · -- The HOST insertion cannot repair the GUEST list.
    refine iff_of_false (fun h => ?_) (fun h => h.1 hmis)
    have hbad : ¬ (t.insortBinding .guest b').1.Ordered := fun h' => hguest.1 h' hmis
    apply hbad
    have hhost := insortBinding_spec (t.insortBinding .guest b').1 .host
      (t.insortBinding .guest b').2 (habs.2.ref .host) (habs.1.refs .host .host)
    rcases hhost with ⟨l₁, it, l₂, hne, -⟩ | ⟨l₁, l₂, hl, -, hplace, hres⟩
    · exact absurd rfl hne
    · rw [hres] at h
      intro side
      by_cases hside : side = .host
      · subst hside
        have hh := h .host
        rw [head_setHead] at hh
        rw [hl]
        exact (DeepFirst.insert_iff.1 hh).1
      · have hh := h side
        rwa [head_setHead_of_ne _ hside] at hh
  · have hord' := hguest.2 hmis
    rw [ordered_insortBinding_iff .host hord' habs.1 habs.2, hkey]
    change ¬ Misplaced _ (comps b.host) (t.insortBinding .guest b').1.host ↔ _
    rw [insortBinding_guest_host ht hb']
    exact ⟨fun h => ⟨hmis, h⟩, fun h => h.2⟩

end Bindings

/-! ## Runs of table operations -/

/-- The operations on a binding table.  A removal names its binding by address;
an address no list holds stands for a binding that is not linked. -/
inductive Op
  | newBinding (host guest : CStr)
  | insortBinding3 (host guest : CStr)
  | insortBinding4 (host guest : CStr) (mountKind : BindingMountKind)
  | removeBindingFromAllLists (addr : ℕ)
  | removeBindingAndRestoreCovered (addr : ℕ)
  | setAttributes (addr : ℕ) (readonly sourceReadonly : Bool)
      (mountFlags sourceMountFlags : UInt64)
  deriving DecidableEq, Repr

/-- The paths an operation inserts start at the root. -/
def Op.Absolute : Op → Prop
  | .newBinding host guest => IsAbsolute host ∧ IsAbsolute guest
  | .insortBinding3 host guest => IsAbsolute host ∧ IsAbsolute guest
  | .insortBinding4 host guest _ => IsAbsolute host ∧ IsAbsolute guest
  | .removeBindingFromAllLists _ => True
  | .removeBindingAndRestoreCovered _ => True
  | .setAttributes _ _ _ _ _ => True

instance : DecidablePred Op.Absolute
  | .newBinding _ _ | .insortBinding3 _ _ | .insortBinding4 _ _ _ =>
    inferInstanceAs (Decidable (_ ∧ _))
  | .removeBindingFromAllLists _ | .removeBindingAndRestoreCovered _
  | .setAttributes _ _ _ _ _ => inferInstanceAs (Decidable True)

namespace Bindings

/-- The binding at an address, in whichever list it is linked. -/
def linked (t : Bindings) (addr : ℕ) : Option Binding :=
  (t.guest ++ t.host ++ t.pending).find? (·.addr = addr)

/-- One operation on a table. -/
def step (t : Bindings) : Op → Bindings
  | .newBinding host guest => (t.newBinding host guest).1
  | .insortBinding3 host guest => (t.insortBinding3 host guest).1
  | .insortBinding4 host guest mountKind => (t.insortBinding4 host guest mountKind).1
  | .removeBindingFromAllLists addr => t.removeBindingFromAllLists addr
  | .removeBindingAndRestoreCovered addr =>
    match t.linked addr with
    | none => t
    | some binding => t.removeBindingAndRestoreCovered binding
  | .setAttributes addr readonly sourceReadonly mountFlags sourceMountFlags =>
    t.update addr (·.setAttributes readonly sourceReadonly mountFlags sourceMountFlags)

/-- `Fits` for the binding a removal puts back, if any. -/
def FitsRestored (t : Bindings) : Option Binding → Prop
  | none => True
  | some covered => t.Fits covered.host covered.guest

instance (t : Bindings) : DecidablePred t.FitsRestored
  | none => inferInstanceAs (Decidable True)
  | some covered => inferInstanceAs (Decidable (t.Fits covered.host covered.guest))

/-- No list an operation inserts into misplaces what it inserts. -/
def WellPlaced (t : Bindings) : Op → Prop
  | .newBinding _ guest => ¬ Misplaced (Binding.key .pending) (comps guest) t.pending
  | .insortBinding3 host guest => t.Fits host guest
  | .insortBinding4 host guest _ => t.Fits host guest
  | .removeBindingFromAllLists _ => True
  | .removeBindingAndRestoreCovered addr =>
    (t.removeBindingFromAllLists addr).FitsRestored
      ((t.linked addr).bind Binding.coveredBinding)
  | .setAttributes _ _ _ _ _ => True

instance (t : Bindings) : DecidablePred t.WellPlaced
  | .newBinding _ _ => inferInstanceAs (Decidable (¬ _))
  | .insortBinding3 host guest => inferInstanceAs (Decidable (t.Fits host guest))
  | .insortBinding4 host guest _ => inferInstanceAs (Decidable (t.Fits host guest))
  | .removeBindingFromAllLists _ => inferInstanceAs (Decidable True)
  | .removeBindingAndRestoreCovered addr =>
    inferInstanceAs (Decidable ((t.removeBindingFromAllLists addr).FitsRestored _))
  | .setAttributes _ _ _ _ _ => inferInstanceAs (Decidable True)

/-- For every path the linear scan of HOST finds the binding with the longest host
path that is a prefix of it. -/
def HostLookupLongest (t : Bindings) : Prop :=
  ∀ path, IsAbsolute path →
    match t.getBinding .host path with
    | none => ∀ c ∈ t.host, ¬ comps c.host <+: comps path
    | some b => b ∈ t.host ∧ comps b.host <+: comps path ∧
        ∀ c ∈ t.host, comps c.host <+: comps path → comps c.host <+: comps b.host

theorem empty_absolute : empty.Absolute := by
  intro side b hb
  cases side <;> simp [empty, head] at hb

theorem empty_ordered : empty.Ordered := by
  intro side
  cases side <;> exact DeepFirst.nil

theorem Absolute.fresh (h : t.Absolute) (n : ℕ) : Absolute { t with fresh := n } := by
  intro side
  cases side
  · exact h .guest
  · exact h .host
  · exact h .pending

theorem Ordered.fresh (h : t.Ordered) (n : ℕ) : Ordered { t with fresh := n } := by
  intro side
  cases side
  · exact h .guest
  · exact h .host
  · exact h .pending

theorem newLayer_absolute {host guest : CStr} {mountKind : BindingMountKind}
    (h : IsAbsolute host ∧ IsAbsolute guest) : (t.newLayer host guest mountKind).Absolute :=
  ⟨h, by simp [newLayer]⟩

theorem linked_absolute (h : t.Absolute) {addr : ℕ} (hb : t.linked addr = some b) :
    b.Absolute ∧ b.addr = addr := by
  have hmem := List.mem_of_find?_eq_some hb
  have haddr := List.find?_some hb
  refine ⟨?_, by simpa using haddr⟩
  simp only [List.mem_append] at hmem
  rcases hmem with (hm | hm) | hm
  · exact h .guest b hm
  · exact h .host b hm
  · exact h .pending b hm

theorem step_absolute (t : Bindings) (op : Op) (hop : op.Absolute) (h : t.Absolute) :
    (t.step op).Absolute := by
  cases op with
  | newBinding host guest =>
    exact ((h.fresh (t.fresh + 1)).insortBinding (newLayer_absolute hop) .pending).1
  | insortBinding3 host guest => exact (h.fresh (t.fresh + 1)).insortBinding2 (newLayer_absolute hop)
  | insortBinding4 host guest mountKind =>
    exact (h.fresh (t.fresh + 1)).insortBinding2 (newLayer_absolute hop)
  | removeBindingFromAllLists addr => exact h.removeBindingFromAllLists addr
  | removeBindingAndRestoreCovered addr =>
    simp only [step]
    cases hb : t.linked addr with
    | none => exact h
    | some b =>
      have hbabs := (linked_absolute h hb).1
      simp only [removeBindingAndRestoreCovered]
      cases hc : b.coveredBinding with
      | none => exact h.removeBindingFromAllLists b.addr
      | some c => exact (h.removeBindingFromAllLists b.addr).insortBinding2 (hbabs.coveredBinding hc)
  | setAttributes addr readonly sourceReadonly mountFlags sourceMountFlags =>
    intro side b hb
    simp only [step, head_update, List.mem_map] at hb
    obtain ⟨c, hc, rfl⟩ := hb
    split
    · exact h side c hc
    · exact h side c hc

theorem Ordered.removeBindingFromAllLists (h : t.Ordered) (addr : ℕ) :
    (t.removeBindingFromAllLists addr).Ordered := by
  intro side
  rw [head_removeBindingFromAllLists]
  exact (h side).sublist List.filter_sublist

/-- One operation keeps the order exactly when what it inserts is well placed. -/
theorem step_ordered_iff (t : Bindings) (op : Op) (hop : op.Absolute) (habs : t.Absolute)
    (hord : t.Ordered) : (t.step op).Ordered ↔ t.WellPlaced op := by
  cases op with
  | newBinding host guest =>
    exact ordered_insortBinding_iff .pending (hord.fresh (t.fresh + 1))
      (habs.fresh (t.fresh + 1)) (newLayer_absolute hop)
  | insortBinding3 host guest =>
    exact ordered_insortBinding2_iff (hord.fresh (t.fresh + 1)) (habs.fresh (t.fresh + 1))
      (newLayer_absolute hop)
  | insortBinding4 host guest mountKind =>
    exact ordered_insortBinding2_iff (hord.fresh (t.fresh + 1)) (habs.fresh (t.fresh + 1))
      (newLayer_absolute hop)
  | removeBindingFromAllLists addr =>
    exact iff_of_true (hord.removeBindingFromAllLists addr) trivial
  | removeBindingAndRestoreCovered addr =>
    simp only [step, WellPlaced]
    cases hb : t.linked addr with
    | none => exact iff_of_true hord trivial
    | some b =>
      obtain ⟨hbabs, rfl⟩ := linked_absolute habs hb
      simp only [removeBindingAndRestoreCovered, Option.bind_some]
      cases hc : b.coveredBinding with
      | none => exact iff_of_true (hord.removeBindingFromAllLists b.addr) trivial
      | some c =>
        exact ordered_insortBinding2_iff (hord.removeBindingFromAllLists b.addr)
          (habs.removeBindingFromAllLists b.addr) (hbabs.coveredBinding hc)
  | setAttributes addr readonly sourceReadonly mountFlags sourceMountFlags =>
    refine iff_of_true (fun side => ?_) trivial
    simp only [step, head_update, DeepFirst, List.pairwise_map]
    refine (hord side).imp fun {b c} hbc => ?_
    rw [key_setAttributes_ite, key_setAttributes_ite]
    exact hbc

theorem matchesRef_iff {side : Side} (hpath : IsAbsolute path) (hb : IsAbsolute (b.ref side)) :
    matchesRef side path b = true ↔ b.key side <+: comps path := by
  unfold matchesRef
  rw [comparePaths2_eq hb hpath, compareComps]
  change _ ↔ comps (b.ref side) <+: comps path
  by_cases heq : comps (b.ref side) = comps path
  · simp [heq]
  · by_cases hpre : comps (b.ref side) <+: comps path
    · simp [heq, hpre]
    · by_cases hpost : comps path <+: comps (b.ref side) <;> simp [heq, hpre, hpost]

/-- The HOST lookup takes the first binding whose host path is above the path. -/
theorem getBinding_host_eq (habs : t.Absolute) (hpath : IsAbsolute path) :
    t.getBinding .host path = t.host.find? fun b => decide (b.key .host <+: comps path) := by
  have hmatch : ∀ b ∈ t.host, matchesRef .host path b = decide (b.key .host <+: comps path) := by
    intro b hb
    rw [Bool.eq_iff_iff, decide_eq_true_iff]
    exact matchesRef_iff hpath ((habs .host b hb).ref .host)
  simp only [getBinding, hpath, not_true_eq_false, if_false, reduceCtorEq, head]
  rw [← List.head?_filter, ← List.head?_filter, List.filter_congr hmatch]

/-- In an ordered table the first host match is the longest. -/
theorem Ordered.hostLookupLongest (hord : t.Ordered) (habs : t.Absolute) : t.HostLookupLongest := by
  intro path hpath
  rw [getBinding_host_eq habs hpath]
  cases hfound : t.host.find? (fun b => decide (b.key .host <+: comps path)) with
  | none =>
    intro c hc
    have hnot := List.find?_eq_none.1 hfound c hc
    rwa [decide_eq_true_eq] at hnot
  | some b =>
    refine ⟨List.mem_of_find?_eq_some hfound, ?_, ?_⟩
    · have hmatch := List.find?_some hfound
      rwa [decide_eq_true_eq] at hmatch
    · exact (hord .host).find_longest hfound

/-- **The order of the lists over a run.**  From an empty table on, every list is
ordered and every host lookup finds the longest match in all states exactly when
every insertion of the run is well placed. -/
theorem ordered_run_iff (ops : List Op) (hops : ∀ op ∈ ops, op.Absolute) :
    (∀ t ∈ Run.states step empty ops, t.Ordered ∧ t.HostLookupLongest) ↔
      Run.AllSteps step WellPlaced empty ops := by
  rw [← Run.states_iff_allSteps (I := Absolute) (P := Ordered) step_absolute step_ordered_iff
    empty_absolute empty_ordered hops]
  have habs := Run.invariant (I := Absolute) step_absolute empty_absolute hops
  exact ⟨fun h t ht => (h t ht).1, fun h t ht => ⟨h t ht, (h t ht).hostLookupLongest (habs t ht)⟩⟩

/-- Four insertions and a removal that restores a covered binding. -/
def nestedOps : List Op :=
  [.newBinding (str "/r") (str "/"), .insortBinding3 (str "/") (str "/"),
    .insortBinding3 (str "/a/b") (str "/a/b"), .insortBinding4 (str "/a") (str "/a/b") .tmpfs,
    .removeBindingAndRestoreCovered 3]

theorem ordered_run_nestedOps :
    Run.AllSteps step WellPlaced empty nestedOps ∧
      ∀ t ∈ Run.states step empty nestedOps, t.Ordered ∧ t.HostLookupLongest :=
  ⟨by decide, (ordered_run_iff nestedOps (by decide)).2 (by decide)⟩

/-- Three nested paths, the outer ones first: `/a/b` ends up behind `/a`. -/
theorem exists_run_not_ordered :
    ∃ ops, (∀ op ∈ ops, Op.Absolute op) ∧
      ¬ ∀ t ∈ Run.states step empty ops, t.Ordered ∧ t.HostLookupLongest :=
  ⟨[.insortBinding3 (str "/") (str "/"), .insortBinding3 (str "/a") (str "/a"),
    .insortBinding3 (str "/a/b") (str "/a/b")], by decide, fun h =>
    absurd ((h _ (List.getElem_mem (n := 3) (by decide))).1 .host) (by decide)⟩

end Bindings
end NeoProot
