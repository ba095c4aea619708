import Mathlib.Control.Basic

/-! Transition systems: the states a step relation reaches from its initial states, the
invariant rule that proves a property of all of them, and the runs of a partial step
function over a list of actions. -/
namespace Transition

variable {σ α : Type*}

inductive Reachable (init : σ → Prop) (step : σ → σ → Prop) : σ → Prop
  | init {s : σ} : init s → Reachable init step s
  | step {s s' : σ} : Reachable init step s → step s s' → Reachable init step s'

def StepOf (step : σ → α → Option σ) (s s' : σ) : Prop := ∃ a, step s a = some s'

section Invariant

variable {init : σ → Prop} {step : σ → σ → Prop}

theorem Reachable.invariant {inv : σ → Prop} (base : ∀ s, init s → inv s)
    (keep : ∀ s s', inv s → step s s' → inv s') {s : σ} (reach : Reachable init step s) :
    inv s := by
  induction reach with
  | init start => exact base _ start
  | step _ next ih => exact keep _ _ ih next

theorem Reachable.invariant_reach {inv : σ → Prop} (base : ∀ s, init s → inv s)
    (keep : ∀ s s', Reachable init step s → inv s → step s s' → inv s') {s : σ}
    (reach : Reachable init step s) : inv s := by
  induction reach with
  | init start => exact base _ start
  | step earlier next ih => exact keep _ _ earlier ih next

theorem Reachable.mono {step' : σ → σ → Prop} (sub : ∀ s s', step s s' → step' s s') {s : σ}
    (reach : Reachable init step s) : Reachable init step' s := by
  induction reach with
  | init start => exact .init start
  | step _ next ih => exact ih.step (sub _ _ next)

end Invariant

theorem Reachable.foldlM {init : σ → Prop} {step : σ → α → Option σ} :
    ∀ (actions : List α) {s s' : σ}, Reachable init (StepOf step) s →
      actions.foldlM step s = some s' → Reachable init (StepOf step) s'
  | [], _, _, reach, run => by
    cases run
    exact reach
  | a :: actions, s, s', reach, run => by
    rw [List.foldlM_cons] at run
    obtain ⟨mid, first, rest⟩ := Option.bind_eq_some_iff.mp run
    exact Reachable.foldlM actions (reach.step ⟨a, first⟩) rest

end Transition
