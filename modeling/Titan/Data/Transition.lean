import Mathlib.Logic.Function.Basic

namespace Transition

variable {σ α ω : Type}

/-- The states a labelled transition function reaches from `init`; each step also yields
    what it shows to the outside. -/
inductive Reachable (step : α → σ → Option (σ × ω)) (init : σ) : σ → Prop
  | start : Reachable step init init
  | next {s s' : σ} {a : α} {e : ω} (prior : Reachable step init s) (taken : step a s = some (s', e)) :
      Reachable step init s'

variable {step : α → σ → Option (σ × ω)} {init s : σ}

theorem Reachable.invariant {P : σ → Prop} (base : P init)
    (keeps : ∀ s a s' e, P s → step a s = some (s', e) → P s') (reach : Reachable step init s) : P s := by
  induction reach with
  | start => exact base
  | next _ taken ih => exact keeps _ _ _ _ ih taken

def run (step : α → σ → Option (σ × ω)) : List α → σ → Option σ
  | [], s => some s
  | a :: rest, s => (step a s).bind fun next => run step rest next.1

theorem Reachable.run {s' : σ} (reach : Reachable step init s) {labels : List α}
    (taken : Transition.run step labels s = some s') : Reachable step init s' := by
  induction labels generalizing s with
  | nil =>
    obtain rfl : s = s' := by simpa [Transition.run] using taken
    exact reach
  | cons a rest ih =>
    simp only [Transition.run, Option.bind_eq_some_iff] at taken
    obtain ⟨⟨next, e⟩, here, later⟩ := taken
    exact ih (.next reach here) later

inductive ReachableIf (step : α → σ → Option (σ × ω)) (meets : α → σ → Prop) (init : σ) : σ → Prop
  | start : ReachableIf step meets init init
  | next {s s' : σ} {a : α} {e : ω} (prior : ReachableIf step meets init s) (met : meets a s)
      (taken : step a s = some (s', e)) : ReachableIf step meets init s'

variable {meets : α → σ → Prop}

theorem ReachableIf.invariant {P : σ → Prop} (base : P init)
    (keeps : ∀ s a s' e, P s → meets a s → step a s = some (s', e) → P s') (reach : ReachableIf step meets init s) : P s := by
  induction reach with
  | start => exact base
  | next _ met taken ih => exact keeps _ _ _ _ ih met taken

def runIf (step : α → σ → Option (σ × ω)) (meets : α → σ → Prop) [∀ a s, Decidable (meets a s)] : List α → σ → Option σ
  | [], s => some s
  | a :: rest, s => if meets a s then (step a s).bind fun next => runIf step meets rest next.1 else none

theorem ReachableIf.run [∀ a s, Decidable (meets a s)] {s' : σ} (reach : ReachableIf step meets init s) {labels : List α}
    (taken : Transition.runIf step meets labels s = some s') : ReachableIf step meets init s' := by
  induction labels generalizing s with
  | nil =>
    obtain rfl : s = s' := by simpa [Transition.runIf] using taken
    exact reach
  | cons a rest ih =>
    rw [Transition.runIf] at taken
    split at taken
    · rename_i met
      rcases Option.bind_eq_some_iff.mp taken with ⟨next, here, later⟩
      exact ih (.next reach met here) later
    · cases taken

end Transition
