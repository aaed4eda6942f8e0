import Mathlib.Algebra.Ring.Nat
import Titan.Data.Transition

namespace Transition

variable {σ α ω : Type} {step : α → σ → Option (σ × ω)} {s s' : σ} {P Q : σ → Prop}

/-- Some steps lead from `s` to a state in which `P` holds. -/
def Leads (step : α → σ → Option (σ × ω)) (s : σ) (P : σ → Prop) : Prop := ∃ labels s', run step labels s = some s' ∧ P s'

theorem run_append {labels more : List α} {t : σ} (first : run step labels s = some s') (second : run step more s' = some t) :
    run step (labels ++ more) s = some t := by
  induction labels generalizing s with
  | nil =>
    cases first
    exact second
  | cons a rest ih =>
    simp only [run, Option.bind_eq_some_iff] at first
    rcases first with ⟨next, here, later⟩
    rw [List.cons_append, run, here, Option.bind_some]
    exact ih later

theorem Leads.here (holds : P s) : Leads step s P := ⟨[], s, rfl, holds⟩

theorem Leads.next {a : α} {e : ω} (taken : step a s = some (s', e)) (later : Leads step s' P) : Leads step s P := by
  rcases later with ⟨labels, t, ran, holds⟩
  refine ⟨a :: labels, t, ?_, holds⟩
  rw [run, taken, Option.bind_some]
  exact ran

theorem Leads.trans (first : Leads step s P) (later : ∀ t, P t → Leads step t Q) : Leads step s Q := by
  rcases first with ⟨labels, t, ran, holds⟩
  rcases later t holds with ⟨more, u, goes, reached⟩
  exact ⟨labels ++ more, u, run_append ran goes, reached⟩

theorem Leads.mono (first : Leads step s P) (weaker : ∀ t, P t → Q t) : Leads step s Q :=
  first.trans fun t holds => .here (weaker t holds)

/-- As long as some steps lower `μ` and keep `I`, or else reach `P`, there is a way to `P`. -/
theorem Leads.variant {I : σ → Prop} (μ : σ → Nat)
    (lowers : ∀ t, I t → Leads step t fun u => P u ∨ I u ∧ μ u < μ t) (start : I s) : Leads step s P := by
  generalize bound : μ s = k
  induction k using Nat.strongRecOn generalizing s with
  | ind k ih =>
    apply (lowers s start).trans
    intro u reached
    rcases reached with done | ⟨kept, less⟩
    · exact .here done
    · exact ih (μ u) (bound ▸ less) kept rfl

theorem Leads.always {J : σ → Prop} (keeps : ∀ s a s' e, J s → step a s = some (s', e) → J s') (start : J s)
    (leads : Leads step s P) : Leads step s fun t => J t ∧ P t := by
  rcases leads with ⟨labels, t, ran, holds⟩
  refine ⟨labels, t, ran, ?_, holds⟩
  clear holds
  induction labels generalizing s with
  | nil =>
    cases ran
    exact start
  | cons a rest ih =>
    simp only [run, Option.bind_eq_some_iff] at ran
    rcases ran with ⟨next, here, later⟩
    exact ih (keeps s a next.1 next.2 start here) later

/-- If every step pays for its cost out of the potential `μ`, its credit, or what it adds to `gain`,
    so does every run. -/
theorem runIf_charged {meets : α → σ → Prop} [∀ a s, Decidable (meets a s)] {I : σ → Prop} (μ gain : σ → Nat)
    (cost credit : α → Nat)
    (charged : ∀ s a s' e, I s → meets a s → step a s = some (s', e) →
      I s' ∧ cost a + μ s' + gain s ≤ μ s + gain s' + credit a)
    {labels : List α} (ran : runIf step meets labels s = some s') (start : I s) :
    (labels.map cost).sum + μ s' + gain s ≤ μ s + gain s' + (labels.map credit).sum := by
  induction labels generalizing s with
  | nil =>
    cases ran
    simp
  | cons a rest ih =>
    rw [runIf] at ran
    split at ran
    · rename_i met
      rcases Option.bind_eq_some_iff.mp ran with ⟨next, here, later⟩
      rcases charged s a next.1 next.2 start met here with ⟨kept, paid⟩
      have whole := ih later kept
      simp only [List.map_cons, List.sum_cons]
      omega
    · cases ran

end Transition
