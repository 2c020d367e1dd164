import Mathlib.Data.List.Basic
import Mathlib.Tactic

/-!
# Runs of a partial machine

`step s a` is the state after action `a`, or `none` when `a` is not enabled in
`s`. A run is a list of actions performed one after the other. `Run` is the
same run with a condition that every state and action of it meets, and
`Run.invariant` is the induction rule: an invariant that each step keeps under
that condition holds at the end.
-/

/-- A machine that performs actions one at a time. -/
structure Machine (σ α : Type*) where
  step : σ → α → Option σ

namespace Machine

variable {σ α : Type*} (M : Machine σ α)

/-- Perform the actions in order; `none` when one of them is not enabled. -/
def runFrom : σ → List α → Option σ
  | s, [] => some s
  | s, a :: as => (M.step s a).bind fun s' => runFrom s' as

/-- A run from `s₀` on which each action meets `cond` in the state it is performed in. -/
inductive Run (cond : σ → α → Prop) (s₀ : σ) : σ → Prop
  | init : Run cond s₀ s₀
  | step {s s' : σ} {a : α} :
      Run cond s₀ s → cond s a → M.step s a = some s' → Run cond s₀ s'

variable {M} {cond : σ → α → Prop} {s₀ s s' : σ}

theorem Run.trans (h₁ : M.Run cond s₀ s) (h₂ : M.Run cond s s') : M.Run cond s₀ s' := by
  induction h₂ with
  | init => exact h₁
  | step _ hc hs ih => exact .step ih hc hs

theorem Run.mono {cond' : σ → α → Prop} (himp : ∀ s a, cond s a → cond' s a)
    (h : M.Run cond s₀ s) : M.Run cond' s₀ s := by
  induction h with
  | init => exact .init
  | step _ hc hs ih => exact .step ih (himp _ _ hc) hs

/-- What holds at the start and is kept by every step that meets the condition holds at the
end of the run. -/
theorem Run.invariant {I : σ → Prop} (h₀ : I s₀)
    (hstep : ∀ s a s', I s → cond s a → M.step s a = some s' → I s')
    (h : M.Run cond s₀ s) : I s := by
  induction h with
  | init => exact h₀
  | step _ hc hs ih => exact hstep _ _ _ ih hc hs

/-- A list of actions whose conditions can be decided, as a run. -/
theorem run_of_runFrom (hc : ∀ s a s', M.step s a = some s' → cond s a) {as : List α}
    (h : M.runFrom s as = some s') : M.Run cond s s' := by
  induction as generalizing s with
  | nil =>
    simp only [runFrom, Option.some.injEq] at h
    exact h ▸ .init
  | cons a as ih =>
    simp only [runFrom, Option.bind_eq_some_iff] at h
    obtain ⟨t, ht, h⟩ := h
    exact (Run.step .init (hc _ _ _ ht) ht).trans (ih h)

def checkFrom (cond : σ → α → Prop) [∀ s a, Decidable (cond s a)] : σ → List α → Option σ
  | s, [] => some s
  | s, a :: as =>
    if cond s a then (M.step s a).bind fun s' => checkFrom cond s' as else none

theorem run_of_checkFrom [∀ s a, Decidable (cond s a)] {as : List α}
    (h : M.checkFrom cond s as = some s') : M.Run cond s s' := by
  induction as generalizing s with
  | nil =>
    simp only [checkFrom, Option.some.injEq] at h
    exact h ▸ .init
  | cons a as ih =>
    unfold checkFrom at h
    split at h
    case isTrue hc =>
      obtain ⟨t, ht, h⟩ := Option.bind_eq_some_iff.mp h
      exact (Run.step .init hc ht).trans (ih h)
    case isFalse => cases h

/-- A run that is evaluated is one, and what holds after every run holds after it. -/
theorem checkFrom_seen [∀ s a, Decidable (cond s a)] {as : List α} {β : Type*} {f : σ → β} {b : β}
    {P : σ → Prop} (hseen : (M.checkFrom cond s as).map f = some b)
    (hP : ∀ t, M.Run cond s t → P t) :
    (M.checkFrom cond s as).map f = some b ∧ ∃ t, M.checkFrom cond s as = some t ∧ P t := by
  obtain ⟨t, ht, -⟩ := Option.map_eq_some_iff.mp hseen
  exact ⟨hseen, t, ht, hP t (run_of_checkFrom ht)⟩

end Machine
