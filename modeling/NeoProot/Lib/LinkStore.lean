import Mathlib.Data.Set.Card

/-!
# Stores of files and links

A store gives each name a node: a file with its data, a symbolic link with its
text, or a directory.  What a name holds is the data at the end of its links, for
any reading `follow` of a link's text.

`keepsOthers_iff` says when a change of the store leaves every other name with the
data it held, by looking at the changed names only.

## Main definitions

* `Node`, `Store` — the nodes and the store.
* `Holds` — the data a name leads to.
* `Reaches` — a name leads to something within so many links.
* `KeepsOthers` — every name but one holds what it held.
* `KeepsOutside` — every name outside a set of names holds what it held.
-/

namespace NeoProot.LinkStore

variable {P T D : Type*}

/-- What a name stands for. -/
inductive Node (T D : Type*)
  | file (data : D)
  | link (target : T)
  | directory
  deriving DecidableEq, Repr

/-- The node of each name, if it has one. -/
abbrev Store (P T D : Type*) := P → Option (Node T D)

section

variable (follow : P → T → P) (s : Store P T D)

/-- The data at the end of the links of a name. -/
inductive Holds : P → D → Prop
  | file {p : P} {d : D} (h : s p = some (.file d)) : Holds p d
  | link {p : P} {t : T} {d : D} (h : s p = some (.link t)) (hd : Holds (follow p t) d) :
      Holds p d

/-- At most so many links lead from the name to a file or a directory. -/
def Reaches : ℕ → P → Bool
  | n, p =>
    match s p with
    | none => false
    | some (.link t) =>
      match n with
      | 0 => false
      | n + 1 => Reaches n (follow p t)
    | some _ => true

end

variable {follow : P → T → P} {s s' : Store P T D} {p q : P} {c d : D} {t : T}

theorem holds_iff_of_file (h : s p = some (.file c)) : Holds follow s p d ↔ d = c := by
  constructor
  · intro hd
    cases hd with
    | file hp => rw [h] at hp; cases hp; rfl
    | link hp => rw [h] at hp; cases hp
  · rintro rfl
    exact .file h

theorem holds_iff_of_link (h : s p = some (.link t)) :
    Holds follow s p d ↔ Holds follow s (follow p t) d := by
  constructor
  · intro hd
    cases hd with
    | file hp => rw [h] at hp; cases hp
    | link hp hd => rw [h] at hp; cases hp; exact hd
  · exact .link h

theorem not_holds_of_none (h : s p = none) : ¬ Holds follow s p d := by
  intro hd
  cases hd with
  | file hp => rw [h] at hp; cases hp
  | link hp => rw [h] at hp; cases hp

theorem link_unique {u : T} (h : s p = some (.link t)) (h' : s p = some (.link u)) : t = u := by
  rw [h] at h'
  cases h'
  rfl

theorem Holds.ne_none (h : Holds follow s p d) : s p ≠ none :=
  fun hp => not_holds_of_none hp h

theorem Holds.unique (hc : Holds follow s p c) (hd : Holds follow s p d) : c = d := by
  induction hc with
  | file h => exact ((holds_iff_of_file h).1 hd).symm
  | link h _ ih => exact ih ((holds_iff_of_link h).1 hd)

/-- A name holds what it held if every changed name that held it still does. -/
theorem Holds.of_changed (h : Holds follow s p d)
    (hchanged : ∀ x, s' x ≠ s x → Holds follow s x d → Holds follow s' x d) :
    Holds follow s' p d := by
  induction h with
  | @file x d hx =>
    by_cases hsame : s' x = s x
    · exact .file (hsame.trans hx)
    · exact hchanged x hsame (.file hx)
  | @link x t d hx hd ih =>
    by_cases hsame : s' x = s x
    · exact .link (hsame.trans hx) (ih hchanged)
    · exact hchanged x hsame (.link hx hd)

/-- Links that are added to one name do not change what this name holds. -/
theorem holds_of_added (hadd : ∀ x, s' x = s x ∨
      s x = none ∧ ∃ t, s' x = some (.link t) ∧ follow x t = p) :
    Holds follow s' p d ↔ Holds follow s p d := by
  constructor
  · intro h
    have hor : ∀ x, Holds follow s' x d → Holds follow s p d ∨ Holds follow s x d := by
      intro x hx
      induction hx with
      | @file x d hx =>
        cases hadd x with
        | inl hsame => exact .inr (.file (hsame ▸ hx))
        | inr hlink =>
          obtain ⟨-, t, ht, -⟩ := hlink
          rw [ht] at hx
          cases hx
      | @link x t d hx _ ih =>
        cases hadd x with
        | inl hsame => exact (ih h).imp id fun hd => .link (hsame ▸ hx) hd
        | inr hlink =>
          obtain ⟨-, t', ht', hfollow⟩ := hlink
          rw [← link_unique ht' hx, hfollow] at ih
          exact .inl ((ih h).elim id id)
    exact (hor p h).elim id id
  · intro h
    refine h.of_changed fun x hdiff hx => ?_
    cases hadd x with
    | inl hsame => exact absurd hsame hdiff
    | inr hlink => exact absurd hlink.1 hx.ne_none

variable (follow) in
/-- Every name but `p` holds what it held. -/
def KeepsOthers (p : P) (s s' : Store P T D) : Prop :=
  ∀ q, q ≠ p → ∀ d, Holds follow s q d → Holds follow s' q d

@[simp] theorem keepsOthers_refl : KeepsOthers follow p s s := fun _ _ _ h => h

/-- **When every name but that of a file holds what it held**: each changed name
does, and no unchanged link leads to the file unless its name still holds its data. -/
theorem keepsOthers_iff (hp : s p = some (.file c)) :
    KeepsOthers follow p s s' ↔
      (∀ x, x ≠ p → s' x ≠ s x → ∀ d, Holds follow s x d → Holds follow s' x d) ∧
      (Holds follow s' p c ∨
        ∀ q t, s' q = s q → s q = some (.link t) → follow q t ≠ p) := by
  constructor
  · intro h
    refine ⟨fun x hx _ => h x hx, ?_⟩
    by_contra hlost
    push Not at hlost
    obtain ⟨hc, q, t, hsame, hq, hqp⟩ := hlost
    have hqne : q ≠ p := by
      rintro rfl
      rw [hp] at hq
      cases hq
    have hold : Holds follow s q c := .link hq (hqp ▸ .file hp)
    have hnew := (holds_iff_of_link (hsame.trans hq)).1 (h q hqne c hold)
    exact hc (hqp ▸ hnew)
  · rintro ⟨hchanged, hlost⟩ q hqp d hd
    induction hd with
    | @file x d hx =>
      by_cases hsame : s' x = s x
      · exact .file (hsame.trans hx)
      · exact hchanged x hqp hsame d (.file hx)
    | @link x t d hx hd ih =>
      by_cases hsame : s' x = s x
      · refine .link (hsame.trans hx) ?_
        by_cases hxp : follow x t = p
        · have hdc : d = c := (holds_iff_of_file hp).1 (hxp ▸ hd)
          cases hlost with
          | inl hc => rw [hxp, hdc]; exact hc
          | inr hnone => exact absurd hxp (hnone x t hsame hx)
        · exact ih hxp
      · exact hchanged x hqp hsame d (.link hx hd)

/-- A link that is made where no name was takes nothing away. -/
theorem Holds.update_none [DecidableEq P] (h : Holds follow s p d) {x : P} (hx : s x = none)
    (node : Option (Node T D)) : Holds follow (Function.update s x node) p d := by
  refine h.of_changed fun y hdiff hy => ?_
  have hyx : y = x := by
    by_contra hne
    exact hdiff (Function.update_of_ne hne ..)
  exact absurd (hyx ▸ hy) (not_holds_of_none hx)

variable (follow) in
/-- Every name outside holds what it held. -/
def KeepsOutside (inside : P → Prop) (s s' : Store P T D) : Prop :=
  ∀ q, ¬ inside q → ∀ d, Holds follow s q d → Holds follow s' q d

theorem keepsOutside_refl {inside : P → Prop} : KeepsOutside follow inside s s :=
  fun _ _ _ h => h

/-- **When every name outside holds what it held**: the changed ones do, and so does
each name inside that an unchanged link from outside leads to. -/
theorem keepsOutside_iff {inside : P → Prop} :
    KeepsOutside follow inside s s' ↔
      (∀ q, ¬ inside q → s' q ≠ s q → ∀ d, Holds follow s q d → Holds follow s' q d) ∧
      ∀ q t, ¬ inside q → s' q = s q → s q = some (.link t) → inside (follow q t) →
        ∀ d, Holds follow s (follow q t) d → Holds follow s' (follow q t) d := by
  constructor
  · intro h
    refine ⟨fun q hq _ => h q hq, fun q t hq hsame hlink _ d hd => ?_⟩
    exact (holds_iff_of_link (hsame.trans hlink)).1 (h q hq d (.link hlink hd))
  · rintro ⟨hchanged, hinside⟩ q hq d hd
    induction hd with
    | @file x d hx =>
      by_cases hsame : s' x = s x
      · exact .file (hsame.trans hx)
      · exact hchanged x hq hsame d (.file hx)
    | @link x t d hx hd ih =>
      by_cases hsame : s' x = s x
      · refine .link (hsame.trans hx) ?_
        by_cases hin : inside (follow x t)
        · exact hinside x t hq hsame hx hin d hd
        · exact ih hin
      · exact hchanged x hq hsame d (.link hx hd)

end NeoProot.LinkStore
