import Mathlib.Data.List.Infix

/-!
# Path walks

How a kernel resolves a name below a root directory: it takes one component after
the other, goes up on `..` but never above the root, and puts the content of a
symbolic link in front of what is left of the name.

A name-space is given by what its lookup says about each place, and the walk is a
deterministic machine over it.  `Walks` counts the links it follows, `Ends` is how
it ends, and `Ends.unique` says that there is one end.

## Main definitions

* `View` — the name-space.
* `step`, `Walks`, `Ends` — the walk.
* `View.IsDirectory` — a place all of whose parents are directories.
-/

namespace NeoProot.PathWalk

variable {γ ε : Type*}

/-- What a lookup says about a place.  The content of a link is whether it is
absolute, and its components. -/
inductive Node (γ ε : Type*)
  | failed (e : ε)
  | missing
  | directory
  | other
  | link (content : Except ε (Bool × List γ))

/-- A name-space with its two special components and the two errors of its walk. -/
structure View (γ ε : Type*) where
  dot : γ
  dotDot : γ
  noEntry : ε
  notDirectory : ε
  node : List γ → Node γ ε

/-- A walk under way: where it is, what is left of the name, and whether a link
at the very end is followed. -/
structure Config (γ : Type*) where
  place : List γ
  todo : List γ
  follow : Bool

/-- How a walk ends. -/
inductive Outcome (γ ε : Type*)
  | arrived (place : List γ)
  | failed (e : ε)

/-- What one step does. -/
inductive Move (γ ε : Type*)
  | ended (outcome : Outcome γ ε)
  | went (next : Config γ)
  | followed (next : Config γ)

/-- The walk behind a link: its content, then the rest of the name.  A link that
ends the name leads on to whatever the links in it name. -/
def Config.behindLink (place : List γ) (content : Bool × List γ) (rest : List γ) (follow : Bool) :
    Config γ :=
  ⟨if content.1 then [] else place, content.2 ++ rest, follow || rest.isEmpty⟩

/-- One step of the walk. -/
def step [DecidableEq γ] (v : View γ ε) : Config γ → Move γ ε
  | ⟨place, [], _⟩ => .ended (.arrived place)
  | ⟨place, c :: rest, follow⟩ =>
    if c = v.dot then .went ⟨place, rest, follow⟩
    else if c = v.dotDot then .went ⟨place.dropLast, rest, follow⟩
    else
      match v.node (place ++ [c]) with
      | .failed e => .ended (.failed e)
      | .missing =>
        .ended (if rest.isEmpty then .arrived (place ++ [c]) else .failed v.noEntry)
      | .other =>
        .ended (if rest.isEmpty then .arrived (place ++ [c]) else .failed v.notDirectory)
      | .directory => .went ⟨place ++ [c], rest, follow⟩
      | .link content =>
        if rest.isEmpty && !follow then .ended (.arrived (place ++ [c]))
        else
          match content with
          | .error e => .ended (.failed e)
          | .ok content => .followed (.behindLink place content rest follow)

/-- A part of a walk, with the number of links it follows. -/
inductive Walks [DecidableEq γ] (v : View γ ε) : ℕ → Config γ → Config γ → Prop
  | refl {c : Config γ} : Walks v 0 c c
  | went {n : ℕ} {c c' d : Config γ} (h : step v c = .went c') (hd : Walks v n c' d) :
      Walks v n c d
  | followed {n : ℕ} {c c' d : Config γ} (h : step v c = .followed c') (hd : Walks v n c' d) :
      Walks v (n + 1) c d

/-- A whole walk: the links it follows and how it ends. -/
def Ends [DecidableEq γ] (v : View γ ε) (c : Config γ) (n : ℕ) (o : Outcome γ ε) : Prop :=
  ∃ d, Walks v n c d ∧ step v d = .ended o

/-- A place that the walk may stand on: it and all places above it are
directories. -/
def View.IsDirectory (v : View γ ε) (place : List γ) : Prop :=
  ∀ p, p <+: place → v.node p = .directory

section

variable [DecidableEq γ] {v : View γ ε} {c d e : Config γ} {m n : ℕ}

/-- The walk takes a component that is neither special. -/
theorem step_entry (v : View γ ε) (place : List γ) {c : γ} (hdot : c ≠ v.dot)
    (hdotDot : c ≠ v.dotDot) (rest : List γ) (follow : Bool) :
    step v ⟨place, c :: rest, follow⟩ =
      match v.node (place ++ [c]) with
      | .failed e => .ended (.failed e)
      | .missing => .ended (if rest.isEmpty then .arrived (place ++ [c]) else .failed v.noEntry)
      | .other => .ended (if rest.isEmpty then .arrived (place ++ [c]) else .failed v.notDirectory)
      | .directory => .went ⟨place ++ [c], rest, follow⟩
      | .link content =>
        if rest.isEmpty && !follow then .ended (.arrived (place ++ [c]))
        else
          match content with
          | .error e => .ended (.failed e)
          | .ok content => .followed (.behindLink place content rest follow) := by
  rw [step, if_neg hdot, if_neg hdotDot]

theorem Walks.trans (h : Walks v m c d) (h' : Walks v n d e) : Walks v (m + n) c e := by
  induction h with
  | refl => rwa [Nat.zero_add]
  | went hstep _ ih => exact .went hstep (ih h')
  | followed hstep _ ih =>
    rw [Nat.add_right_comm]
    exact .followed hstep (ih h')

/-- A walk that ends, ends the same way from every place it comes through. -/
theorem Walks.ends_of_ends {o : Outcome γ ε} {k : ℕ} (h : Walks v n c d)
    (hend : Ends v c k o) : ∃ j, k = n + j ∧ Ends v d j o := by
  induction h generalizing k with
  | refl => exact ⟨k, by omega, hend⟩
  | went hstep _ ih =>
    obtain ⟨f, hf, hfo⟩ := hend
    cases hf with
    | refl => exact absurd (hstep.symm.trans hfo) (by simp)
    | went hstep' hf =>
      obtain rfl := Move.went.inj (hstep.symm.trans hstep')
      exact ih ⟨f, hf, hfo⟩
    | followed hstep' hf => exact absurd (hstep.symm.trans hstep') (by simp)
  | followed hstep _ ih =>
    obtain ⟨f, hf, hfo⟩ := hend
    cases hf with
    | refl => exact absurd (hstep.symm.trans hfo) (by simp)
    | went hstep' hf => exact absurd (hstep.symm.trans hstep') (by simp)
    | followed hstep' hf =>
      obtain rfl := Move.followed.inj (hstep.symm.trans hstep')
      obtain ⟨j, hj, hend⟩ := ih ⟨f, hf, hfo⟩
      exact ⟨j, by omega, hend⟩

/-- **A walk has one end.** -/
theorem Ends.unique {o o' : Outcome γ ε} (h : Ends v c m o) (h' : Ends v c n o') :
    m = n ∧ o = o' := by
  obtain ⟨d, hd, hdo⟩ := h
  obtain ⟨j, hj, f, hf, hfo⟩ := hd.ends_of_ends h'
  cases hf with
  | refl => exact ⟨by omega, by simpa using hdo.symm.trans hfo⟩
  | went hstep _ => exact absurd (hdo.symm.trans hstep) (by simp)
  | followed hstep _ => exact absurd (hdo.symm.trans hstep) (by simp)

end

namespace View.IsDirectory

variable {v : View γ ε} {place : List γ}

theorem self (h : v.IsDirectory place) : v.node place = .directory := h place List.prefix_rfl

theorem root (h : v.IsDirectory place) : v.IsDirectory [] := by
  intro p hp
  rw [List.prefix_nil] at hp
  exact h p (hp ▸ List.nil_prefix)

theorem dropLast (h : v.IsDirectory place) : v.IsDirectory place.dropLast :=
  fun p hp => h p (hp.trans (List.dropLast_prefix place))

theorem concat (h : v.IsDirectory place) {c : γ} (hc : v.node (place ++ [c]) = .directory) :
    v.IsDirectory (place ++ [c]) := by
  intro p hp
  obtain rfl | hp := List.prefix_concat_iff.1 hp
  · exact hc
  · exact h p hp

end View.IsDirectory
end NeoProot.PathWalk
