import Mathlib.Data.List.Infix

/-!
# Lists ordered for a first-match search

A table that is searched front to back for the first element whose key is a
prefix of a query answers with the longest match only if no key stands before a
key that extends it.  `DeepFirst` is that order, `find_longest` the guarantee it
buys, and `deepFirst_insert_iff` the price of one insertion.

## Main definitions

* `StrictPrefix cs ds` — `ds` extends `cs`.
* `DeepFirst key l` — in `l` every extension stands before what it extends.
-/

namespace NeoProot

variable {β γ : Type*}

/-- `ds` goes on where `cs` ends. -/
def StrictPrefix (cs ds : List γ) : Prop := cs <+: ds ∧ cs ≠ ds

instance [DecidableEq γ] (cs ds : List γ) : Decidable (StrictPrefix cs ds) :=
  inferInstanceAs (Decidable (cs <+: ds ∧ cs ≠ ds))

namespace StrictPrefix

theorem irrefl (cs : List γ) : ¬ StrictPrefix cs cs := fun h => h.2 rfl

theorem length_lt {cs ds : List γ} (h : StrictPrefix cs ds) : cs.length < ds.length := by
  rcases Nat.lt_or_ge cs.length ds.length with hlt | hge
  · exact hlt
  · exact absurd (h.1.eq_of_length_le hge) h.2

theorem trans_isPrefix {cs ds es : List γ} (h : StrictPrefix cs ds) (h' : ds <+: es) :
    StrictPrefix cs es := by
  refine ⟨h.1.trans h', fun heq => ?_⟩
  have hlt := h.length_lt
  have hle := h'.length_le
  rw [heq] at hlt
  omega

end StrictPrefix

/-- Every element stands before the elements whose keys it extends. -/
def DeepFirst (key : β → List γ) (l : List β) : Prop :=
  l.Pairwise fun x y => ¬ StrictPrefix (key x) (key y)

instance [DecidableEq γ] (key : β → List γ) (l : List β) : Decidable (DeepFirst key l) :=
  inferInstanceAs (Decidable (l.Pairwise _))

namespace DeepFirst

variable {key : β → List γ} {l l₁ l₂ : List β}

theorem nil : DeepFirst key [] := List.Pairwise.nil

theorem sublist (h : DeepFirst key l₂) (hs : l₁.Sublist l₂) : DeepFirst key l₁ :=
  List.Pairwise.sublist hs h

/-- One insertion keeps the order exactly when nothing in front of the new
element is extended by it and nothing behind extends it. -/
theorem insert_iff {b : β} :
    DeepFirst key (l₁ ++ b :: l₂) ↔
      DeepFirst key (l₁ ++ l₂) ∧ (∀ x ∈ l₁, ¬ StrictPrefix (key x) (key b)) ∧
        ∀ y ∈ l₂, ¬ StrictPrefix (key b) (key y) := by
  simp only [DeepFirst, List.pairwise_append, List.pairwise_cons, List.mem_cons]
  constructor
  · rintro ⟨h1, ⟨h2, h3⟩, h4⟩
    exact ⟨⟨h1, h3, fun x hx y hy => h4 x hx y (.inr hy)⟩, fun x hx => h4 x hx b (.inl rfl), h2⟩
  · rintro ⟨⟨h1, h3, h4⟩, h5, h2⟩
    refine ⟨h1, ⟨h2, h3⟩, ?_⟩
    rintro x hx y (rfl | hy)
    · exact h5 x hx
    · exact h4 x hx y hy

/-- In an ordered list the first key that is a prefix of the query is the longest. -/
theorem find_longest [DecidableEq γ] {q : List γ} (h : DeepFirst key l) {b : β}
    (hb : l.find? (fun x => decide (key x <+: q)) = some b) :
    ∀ c ∈ l, key c <+: q → key c <+: key b := by
  obtain ⟨hbq, l₁, l₂, rfl, hfront⟩ := List.find?_eq_some_iff_append.1 hb
  have hbq' : key b <+: q := by simpa using hbq
  intro c hc hcq
  rcases List.mem_append.1 hc with hc | hc
  · exact absurd hcq (by simpa using hfront c hc)
  rcases List.mem_cons.1 hc with rfl | hc
  · exact List.prefix_rfl
  rcases List.prefix_or_prefix_of_prefix hcq hbq' with hle | hle
  · exact hle
  · by_cases heq : key b = key c
    · exact heq ▸ List.prefix_rfl
    · have hsorted := (List.pairwise_append.1 h).2.1
      exact absurd ⟨hle, heq⟩ ((List.pairwise_cons.1 hsorted).1 c hc)

end DeepFirst
end NeoProot
