import Mathlib.Data.List.Basic

/-!
# Runs of a step function

A system that takes one operation after the other is a step function, and a run
is the list of the states it passes through.  `states_iff_allSteps` is the rule
for a property that some steps break: if one step keeps it exactly when a
condition on the step holds, then a whole run keeps it exactly when every step
of the run meets the condition.

## Main definitions

* `states step s ops` — the states of the run of `ops` from `s`.
* `AllSteps step C s ops` — every operation of the run meets `C` in its state.
* `trace step s ops` — the answers of the run, each with the state it leaves.
* `answers_eq_of_related` — a simulation of one system by another.
-/

namespace NeoProot.Run

variable {σ ο : Type*} (step : σ → ο → σ)
variable {I P : σ → Prop} {A : ο → Prop} {s : σ} {os : List ο} {C D : σ → ο → Prop}

/-- The states a run passes through, the first and the last included. -/
def states (s : σ) : List ο → List σ
  | [] => [s]
  | o :: os => s :: states (step s o) os

/-- Every operation of a run meets the condition in the state it starts from. -/
def AllSteps (C : σ → ο → Prop) (s : σ) : List ο → Prop
  | [] => True
  | o :: os => C s o ∧ AllSteps C (step s o) os

@[simp] theorem states_nil (s : σ) : states step s [] = [s] := rfl

@[simp] theorem states_cons (s : σ) (o : ο) (os : List ο) :
    states step s (o :: os) = s :: states step (step s o) os := rfl

@[simp] theorem allSteps_nil (C : σ → ο → Prop) (s : σ) : AllSteps step C s [] := trivial

@[simp] theorem allSteps_cons (C : σ → ο → Prop) (s : σ) (o : ο) (os : List ο) :
    AllSteps step C s (o :: os) ↔ C s o ∧ AllSteps step C (step s o) os := Iff.rfl

instance decidableAllSteps (C : σ → ο → Prop) [∀ s o, Decidable (C s o)] (s : σ) :
    (os : List ο) → Decidable (AllSteps step C s os)
  | [] => inferInstanceAs (Decidable True)
  | o :: os =>
    have := decidableAllSteps C (step s o) os
    inferInstanceAs (Decidable (C s o ∧ AllSteps step C (step s o) os))

theorem allSteps_append (C : σ → ο → Prop) (s : σ) (os ps : List ο) :
    AllSteps step C s (os ++ ps) ↔ AllSteps step C s os ∧ AllSteps step C (os.foldl step s) ps := by
  induction os generalizing s with
  | nil => simp
  | cons o os ih => rw [List.cons_append, allSteps_cons, allSteps_cons, ih, List.foldl_cons, and_assoc]

theorem mem_states_self (s : σ) (os : List ο) : s ∈ states step s os := by
  cases os <;> simp

/-- The last state of a run. -/
theorem foldl_mem_states (s : σ) (os : List ο) : os.foldl step s ∈ states step s os := by
  induction os generalizing s with
  | nil => exact List.mem_singleton_self s
  | cons o os ih => exact List.mem_cons_of_mem s (ih (step s o))

variable {step}

/-- An invariant of the steps of a run holds in every state of the run. -/
theorem invariant (hstep : ∀ s o, A o → I s → I (step s o)) (hs : I s) (hos : ∀ o ∈ os, A o) :
    ∀ s' ∈ states step s os, I s' := by
  induction os generalizing s with
  | nil => simpa using hs
  | cons o os ih =>
    intro s' hs'
    rcases List.mem_cons.1 hs' with rfl | hs'
    · exact hs
    · exact ih (hstep s o (hos o (by simp)) hs) (fun p hp => hos p (by simp [hp])) s' hs'

/-- A run whose steps meet a condition leads to a state of any invariant of such steps. -/
theorem invariant_foldl (hstep : ∀ s o, C s o → I s → I (step s o)) (hs : I s)
    (hos : AllSteps step C s os) : I (os.foldl step s) := by
  induction os generalizing s with
  | nil => exact hs
  | cons o os ih => exact ih (hstep s o hos.1 hs) hos.2

/-- An invariant of the steps that meet a condition holds in every state of a run of such
steps. -/
theorem invariant_states (hstep : ∀ s o, C s o → I s → I (step s o)) (hs : I s)
    (hos : AllSteps step C s os) : ∀ s' ∈ states step s os, I s' := by
  induction os generalizing s with
  | nil => simpa using hs
  | cons o os ih =>
    intro s' hs'
    obtain rfl | hs' := List.mem_cons.1 hs'
    · exact hs
    · exact ih (hstep s o hos.1 hs) hos.2 s' hs'

/-- What the steps of a run are from a state of the invariant, all of them are. -/
theorem allSteps_of_invariant (hI : ∀ s o, I s → C s o → I (step s o) ∧ D s o) (hs : I s)
    (hos : AllSteps step C s os) : AllSteps step D s os := by
  induction os generalizing s with
  | nil => exact trivial
  | cons o os ih =>
    obtain ⟨hnext, hD⟩ := hI s o hs hos.1
    exact ⟨hD, ih hnext hos.2⟩

theorem allSteps_and (C D : σ → ο → Prop) (s : σ) (os : List ο) :
    AllSteps step (fun s o => C s o ∧ D s o) s os ↔
      AllSteps step C s os ∧ AllSteps step D s os := by
  induction os generalizing s with
  | nil => simp
  | cons o os ih => rw [allSteps_cons, allSteps_cons, allSteps_cons, ih, and_and_and_comm]

/-- If one step keeps `P` exactly when it meets `C`, a run keeps `P` in every
state exactly when all its steps meet `C`. -/
theorem states_iff_allSteps (hI : ∀ s o, A o → I s → I (step s o))
    (hP : ∀ s o, A o → I s → P s → (P (step s o) ↔ C s o)) (hs : I s) (hPs : P s)
    (hos : ∀ o ∈ os, A o) : (∀ s' ∈ states step s os, P s') ↔ AllSteps step C s os := by
  induction os generalizing s with
  | nil => simpa using hPs
  | cons o os ih =>
    have ho := hos o (by simp)
    have hos' : ∀ p ∈ os, A p := fun p hp => hos p (by simp [hp])
    rw [states_cons, allSteps_cons, List.forall_mem_cons, ← hP s o ho hs hPs]
    constructor
    · rintro ⟨-, h⟩
      have hnext : P (step s o) := h _ (mem_states_self step _ _)
      exact ⟨hnext, (ih (hI s o ho hs) hnext hos').1 h⟩
    · rintro ⟨hnext, h⟩
      exact ⟨hPs, (ih (hI s o ho hs) hnext hos').2 h⟩

/-- If the steps that meet `C` keep an invariant, and one step keeps `P` exactly when it meets
`C`, then a run keeps `P` in every state exactly when all its steps meet `C`. -/
theorem states_iff_allSteps_of_kept (hI : ∀ s o, I s → P s → C s o → I (step s o))
    (hP : ∀ s o, I s → P s → (P (step s o) ↔ C s o)) (hs : I s) (hPs : P s) :
    (∀ s' ∈ states step s os, P s') ↔ AllSteps step C s os := by
  induction os generalizing s with
  | nil => simpa using hPs
  | cons o os ih =>
    rw [states_cons, allSteps_cons, List.forall_mem_cons]
    constructor
    · rintro ⟨-, h⟩
      have hnext : P (step s o) := h _ (mem_states_self step _ _)
      have hC := (hP s o hs hPs).1 hnext
      exact ⟨hC, (ih (hI s o hs hPs hC) hnext).1 h⟩
    · rintro ⟨hC, h⟩
      exact ⟨hPs, (ih (hI s o hs hPs hC) ((hP s o hs hPs).2 hC)).2 h⟩

/-- If a step leads to a state of `P` exactly from one of `P` by a step that meets `C`, as far as
the run is `Q`, then a run ends in a state of `P` exactly when all its steps meet `C`. -/
theorem foldl_iff_allSteps {Q : σ → Prop} (hI : ∀ s o, I s → I (step s o))
    (hQ : ∀ s o, I s → Q (step s o) → Q s)
    (hP : ∀ s o, I s → Q (step s o) → (P (step s o) ↔ P s ∧ C s o)) (hs : I s)
    (hend : Q (os.foldl step s)) : Q s ∧ (P (os.foldl step s) ↔ P s ∧ AllSteps step C s os) := by
  induction os generalizing s with
  | nil => exact ⟨hend, by simp⟩
  | cons o os ih =>
    obtain ⟨hnext, hrest⟩ := ih (hI s o hs) hend
    refine ⟨hQ s o hs hnext, ?_⟩
    rw [List.foldl_cons, hrest, hP s o hs hnext, allSteps_cons, and_assoc]

/-- A rank that no step raises, and that the steps of `m` lower, is used up by so many of them. -/
theorem reaches_of_rank {G : σ → Prop} {m : ο → Bool} {r : σ → ℕ}
    (hI : ∀ s o, C s o → I s → I (step s o)) (hG : ∀ s o, C s o → I s → G s → G (step s o))
    (hzero : ∀ s, I s → r s = 0 → G s) (hrank : ∀ s o, C s o → I s →
      G (step s o) ∨ r (step s o) ≤ r s ∧ (m o = true → r (step s o) < r s)) (hs : I s)
    (hos : AllSteps step C s os) (hlong : r s ≤ os.countP m) : G (os.foldl step s) := by
  induction os generalizing s with
  | nil => exact hzero s hs (Nat.le_zero.1 hlong)
  | cons o os ih =>
    have hnext := hI s o hos.1 hs
    obtain hdone | ⟨hle, hlt⟩ := hrank s o hos.1 hs
    · have hboth : I (os.foldl step (step s o)) ∧ G (os.foldl step (step s o)) :=
        invariant_foldl (I := fun s => I s ∧ G s)
          (fun s o hC h => ⟨hI s o hC h.1, hG s o hC h.1 h.2⟩) ⟨hnext, hdone⟩ hos.2
      exact hboth.2
    · refine ih hnext hos.2 ?_
      rw [List.countP_cons] at hlong
      by_cases hm : m o = true
      · have hdown := hlt hm
        rw [if_pos hm] at hlong
        omega
      · rw [if_neg hm] at hlong
        omega

/-- Conditions that agree where an invariant holds, which one of them keeps, are met by the same
runs. -/
theorem allSteps_congr_of_invariant (hI : ∀ s o, I s → C s o → I (step s o))
    (h : ∀ s o, I s → (C s o ↔ D s o)) (hs : I s) (os : List ο) :
    AllSteps step C s os ↔ AllSteps step D s os := by
  induction os generalizing s with
  | nil => exact Iff.rfl
  | cons o os ih =>
    rw [allSteps_cons, allSteps_cons, ← h s o hs]
    apply and_congr_right
    intro hC
    exact ih (hI s o hs hC)

theorem allSteps_congr (h : ∀ s o, C s o ↔ D s o) (s : σ) (os : List ο) :
    AllSteps step C s os ↔ AllSteps step D s os := by
  have hI : ∀ s o, (fun _ : σ => True) s → C s o → (fun _ : σ => True) (step s o) :=
    fun _ _ _ _ => trivial
  exact allSteps_congr_of_invariant hI (fun s o _ => h s o) trivial os

section Trace

variable {ρ : Type*}

/-- The answers of a run, each with the state it leaves. -/
def trace (step : σ → ο → σ × ρ) (s : σ) : List ο → List (σ × ρ)
  | [] => []
  | o :: os => step s o :: trace step (step s o).1 os

/-- Two systems answer a whole run alike exactly when they answer each of its steps
alike. -/
theorem trace_eq_iff {f g : σ → ο → σ × ρ} (s : σ) (os : List ο) :
    trace f s os = trace g s os ↔
      AllSteps (fun s o => (f s o).1) (fun s o => f s o = g s o) s os := by
  induction os generalizing s with
  | nil => simp [trace]
  | cons o os ih =>
    rw [allSteps_cons, trace, trace, List.cons.injEq]
    refine and_congr_right fun heq => ?_
    rw [← heq, ih]

/-- Two systems answer a whole run alike if their states stay related and related states answer
alike. -/
theorem answers_eq_of_related {τ : Type*} {R : σ → τ → Prop} {f : σ → ο → σ × ρ} {g : τ → ο → τ × ρ}
    (h : ∀ s t o, A o → R s t → R (f s o).1 (g t o).1 ∧ (f s o).2 = (g t o).2) {t : τ} (hR : R s t)
    (hos : ∀ o ∈ os, A o) : (trace f s os).map Prod.snd = (trace g t os).map Prod.snd := by
  induction os generalizing s t with
  | nil => rfl
  | cons o os ih =>
    obtain ⟨hnext, hanswer⟩ := h s t o (hos o List.mem_cons_self) hR
    rw [trace, trace, List.map_cons, List.map_cons, hanswer,
      ih hnext fun p hp => hos p (List.mem_cons_of_mem o hp)]

end Trace

end NeoProot.Run
