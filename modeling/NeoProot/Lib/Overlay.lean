import NeoProot.Lib.PagedMemory

/-!
# Pages over pages

Pages are mapped with a content, over what was there.  After a series of such mappings a
place has the content of the last one that reaches its page.

## Main definitions

* `Patch` — a range of pages and its content.
* `PagedMemory.overlay` — a patch is mapped.
* `lastPatch` — the last patch that reaches a page.
-/

namespace NeoProot

/-- Pages from the first to the last, this one included, and what their places hold. -/
structure Patch (α : Type*) where
  first : ℕ
  last : ℕ
  content : ℕ → α

namespace Patch

variable {α : Type*}

/-- The page is one of the patch. -/
def reaches (patch : Patch α) (page : ℕ) : Bool := patch.first ≤ page && page ≤ patch.last

theorem reaches_iff {patch : Patch α} {page : ℕ} :
    patch.reaches page = true ↔ patch.first ≤ page ∧ page ≤ patch.last := by
  rw [reaches, Bool.and_eq_true, decide_eq_true_eq, decide_eq_true_eq]

/-- The last patch that reaches a page. -/
def lastPatch (patches : List (Patch α)) (page : ℕ) : Option (Patch α) :=
  (patches.filter (·.reaches page)).getLast?

theorem lastPatch_cons (patch : Patch α) (patches : List (Patch α)) (page : ℕ) :
    lastPatch (patch :: patches) page =
      (lastPatch patches page).or (if patch.reaches page then some patch else none) := by
  rw [lastPatch, lastPatch, List.filter_cons]
  split_ifs with hreaches
  · rw [List.getLast?_cons]
    cases (patches.filter (·.reaches page)).getLast? with
    | none => rfl
    | some later => rfl
  · rw [Option.or_none]

/-- A page that is reached has a last patch. -/
theorem exists_lastPatch {patches : List (Patch α)} {patch : Patch α} {page : ℕ}
    (hmem : patch ∈ patches) (hreaches : patch.reaches page = true) :
    ∃ later, lastPatch patches page = some later := by
  have hne : patches.filter (·.reaches page) ≠ [] :=
    List.ne_nil_of_mem (List.mem_filter.2 ⟨hmem, hreaches⟩)
  exact ⟨_, List.getLast?_eq_getLast_of_ne_nil hne⟩

theorem mem_of_lastPatch {patches : List (Patch α)} {patch : Patch α} {page : ℕ}
    (h : lastPatch patches page = some patch) : patch ∈ patches ∧ patch.reaches page = true :=
  List.mem_filter.1 (List.mem_of_getLast? h)

end Patch

namespace PagedMemory

variable {α : Type*} {m : PagedMemory α}

/-- The pages of the patch are mapped, with its content. -/
def overlay (m : PagedMemory α) (patch : Patch α) : PagedMemory α :=
  { m with
    isMapped := fun page => m.isMapped page || patch.reaches page
    value := fun x => if patch.reaches (x / m.pageSize) then patch.content x else m.value x }

@[simp] theorem pageSize_overlay (patch : Patch α) : (m.overlay patch).pageSize = m.pageSize := rfl

@[simp] theorem isMapped_overlay (patch : Patch α) (page : ℕ) :
    (m.overlay patch).isMapped page = (m.isMapped page || patch.reaches page) := rfl

theorem value_overlay (patch : Patch α) (x : ℕ) : (m.overlay patch).value x =
    if patch.reaches (x / m.pageSize) then patch.content x else m.value x := rfl

/-- Two memories with the same pages and the same values are the same. -/
theorem eq_of_same {m' : PagedMemory α} (hsize : m.pageSize = m'.pageSize)
    (hmapped : ∀ page, m.isMapped page = m'.isMapped page)
    (hvalue : ∀ x, m.value x = m'.value x) : m = m' := by
  cases m with
  | mk pageSize isMapped value pos =>
    cases m' with
    | mk pageSize' isMapped' value' pos' =>
      cases hsize
      cases funext hmapped
      cases funext hvalue
      rfl

/-- A patch without pages changes nothing. -/
theorem overlay_empty {patch : Patch α} (h : patch.last < patch.first) : m.overlay patch = m := by
  have hreaches : ∀ page, patch.reaches page = false := by
    intro page
    rw [Bool.eq_false_iff, Ne, Patch.reaches_iff]
    omega
  refine eq_of_same rfl (fun page => ?_) (fun x => ?_)
  · rw [isMapped_overlay, hreaches, Bool.or_false]
  · rw [value_overlay, hreaches, if_neg Bool.false_ne_true]

theorem pageSize_overlays (patches : List (Patch α)) :
    (patches.foldl overlay m).pageSize = m.pageSize := by
  induction patches generalizing m with
  | nil => rfl
  | cons patch patches ih =>
    rw [List.foldl_cons, ih, pageSize_overlay]

theorem isMapped_overlays (patches : List (Patch α)) (page : ℕ) :
    (patches.foldl overlay m).isMapped page =
      (m.isMapped page || patches.any (·.reaches page)) := by
  induction patches generalizing m with
  | nil => rw [List.foldl_nil, List.any_nil, Bool.or_false]
  | cons patch patches ih =>
    rw [List.foldl_cons, ih, List.any_cons, ← Bool.or_assoc, isMapped_overlay]

/-- **A place has the content of the last patch that reaches its page.** -/
theorem value_overlays (patches : List (Patch α)) (x : ℕ) :
    (patches.foldl overlay m).value x =
      match Patch.lastPatch patches (x / m.pageSize) with
      | some patch => patch.content x
      | none => m.value x := by
  induction patches generalizing m with
  | nil => rfl
  | cons patch patches ih =>
    rw [List.foldl_cons, ih, pageSize_overlay, value_overlay, Patch.lastPatch_cons]
    cases Patch.lastPatch patches (x / m.pageSize) with
    | some later => rfl
    | none =>
      rw [Option.none_or]
      dsimp only
      split_ifs
      · rfl
      · rfl

end PagedMemory

end NeoProot
