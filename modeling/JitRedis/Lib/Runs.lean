import Mathlib.Tactic

/-!
# Runs of a transition system

A step is partial: an event that cannot occur in a state has no successor. A run is a sequence of events, each of
which can occur. Invariants may speak of the events that have occurred so far.
-/

namespace Runs

variable {σ ε : Type} {step : σ → ε → Option σ} {s s' : σ} {evs evs' : List ε}

/-- The state that a sequence of events leads to. -/
def run (step : σ → ε → Option σ) (s : σ) (evs : List ε) : Option σ := evs.foldlM step s

lemma run_cons {e : ε} : run step s (e :: evs) = (step s e).bind fun s => run step s evs := List.foldlM_cons ..

/-- What holds of no events and the first state, and is kept by each event, holds of a whole run. -/
theorem run_history {P : List ε → σ → Prop}
    (kept : ∀ {h s e s'}, P h s → step s e = some s' → P (h ++ [e]) s')
    {h : List ε} (start : P h s) (hrun : run step s evs = some s') : P (h ++ evs) s' := by
  induction evs generalizing h s with
  | nil =>
    cases hrun
    rw [List.append_nil]
    exact start
  | cons e evs ih =>
    rw [run_cons] at hrun
    obtain ⟨s₁, hstep, hrun⟩ := Option.bind_eq_some_iff.mp hrun
    rw [← List.singleton_append, ← List.append_assoc]
    exact ih (kept start hstep) hrun

/-- What each event keeps holds in every state of a run. -/
theorem run_invariant {P : σ → Prop} (kept : ∀ {s e s'}, P s → step s e = some s' → P s') (start : P s)
    (hrun : run step s evs = some s') : P s' :=
  run_history (P := fun _ => P) kept (h := []) start hrun

/-- Every event of the run meets a condition in the state it occurs in. -/
def Along (step : σ → ε → Option σ) (C : σ → ε → Prop) : σ → List ε → Prop
  | _, [] => True
  | s, e :: evs => C s e ∧ ∀ s', step s e = some s' → Along step C s' evs

/-- What each event keeps that meets the condition holds in every state of a run along which it is met. -/
theorem run_invariant_along {P : σ → Prop} {C : σ → ε → Prop}
    (kept : ∀ {s e s'}, P s → C s e → step s e = some s' → P s') (start : P s) (along : Along step C s evs)
    (hrun : run step s evs = some s') : P s' := by
  induction evs generalizing s with
  | nil =>
    cases hrun
    exact start
  | cons e evs ih =>
    rw [run_cons] at hrun
    obtain ⟨s₁, hstep, hrun⟩ := Option.bind_eq_some_iff.mp hrun
    exact ih (kept start along.1 hstep) (along.2 s₁ hstep) hrun

def checkAlong (step : σ → ε → Option σ) (c : σ → ε → Bool) : σ → List ε → Bool
  | _, [] => true
  | s, e :: evs => c s e && (step s e).all fun s' => checkAlong step c s' evs

/-- A condition is met along a run when a check that implies it passes. -/
lemma along_of_check {C c} (sound : ∀ {s e}, c s e = true → C s e)
    (h : checkAlong step c s evs = true) : Along step C s evs := by
  induction evs generalizing s with
  | nil => trivial
  | cons e evs ih =>
    rw [checkAlong, Bool.and_eq_true] at h
    refine ⟨sound h.1, fun s' hstep => ih ?_⟩
    have rest := h.2
    rwa [hstep, Option.all_some] at rest

lemma run_checked (step : σ → ε → Option σ) (s : σ) (evs : List ε) {p}
    (h : (run step s evs).any p = true) : ∃ s', run step s evs = some s' ∧ p s' = true := by
  cases hrun : run step s evs with
  | none =>
    rw [hrun] at h
    cases h
  | some s' =>
    rw [hrun] at h
    exact ⟨s', rfl, h⟩

end Runs
