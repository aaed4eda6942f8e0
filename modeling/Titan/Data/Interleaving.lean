import Mathlib.Data.List.Basic
import Mathlib.Logic.Function.Basic
import Mathlib.Tactic.Common

namespace Interleaving

variable {ι κ α : Type} [DecidableEq ι] {i j : ι}

def of (i : ι) (l : List (ι × α)) : List α := (l.filter fun c => c.1 = i).map Prod.snd

theorem of_cons_self (i : ι) (a : α) (l : List (ι × α)) : of i ((i, a) :: l) = a :: of i l := by
  unfold of
  rw [List.filter_cons_of_pos (by simp), List.map_cons]

theorem of_cons_of_ne (other : i ≠ j) (a : α) (l : List (ι × α)) : of j ((i, a) :: l) = of j l := by
  unfold of
  rw [List.filter_cons_of_neg (by simpa using other)]

theorem of_front {l l' : List (ι × α)} (front : l <+: l') (i : ι) : of i l <+: of i l' := (front.filter _).map _

theorem of_map (i : ι) {β : Type} (f : α → β) (l : List (ι × α)) : of i (l.map fun c => (c.1, f c.2)) = (of i l).map f := by
  induction l with
  | nil => rfl
  | cons c rest ih =>
    rcases c with ⟨j, a⟩
    by_cases here : j = i
    · subst here
      rw [List.map_cons, of_cons_self, of_cons_self, List.map_cons, ih]
    · rw [List.map_cons, of_cons_of_ne here, of_cons_of_ne here, ih]

theorem exists_labelled {claimed : List (ι × α)} {streams : ι → List (κ × α)}
    (fits : ∀ i, of i claimed <+: (streams i).map Prod.snd) :
    ∃ tagged : List (ι × κ × α), tagged.map (fun t => (t.1, t.2.2)) = claimed ∧ ∀ i, of i tagged <+: streams i := by
  induction claimed generalizing streams with
  | nil => exact ⟨[], rfl, fun i => List.nil_prefix⟩
  | cons c rest ih =>
    rcases c with ⟨i, a⟩
    have here := fits i
    rw [of_cons_self] at here
    cases stream : streams i with
    | nil =>
      rw [stream] at here
      cases List.prefix_nil.mp here
    | cons label later =>
      rcases label with ⟨k, b⟩
      rw [stream, List.map_cons, List.cons_prefix_cons] at here
      rcases here with ⟨same, here⟩
      have fits' : ∀ j, of j rest <+: (Function.update streams i later j).map Prod.snd := by
        intro j
        by_cases moved : j = i
        · subst moved
          rw [Function.update_self]
          exact here
        · have elsewhere := fits j
          rw [of_cons_of_ne (Ne.symm moved)] at elsewhere
          rw [Function.update_of_ne moved]
          exact elsewhere
      rcases ih fits' with ⟨tagged, whole, parts⟩
      refine ⟨(i, k, a) :: tagged, by rw [List.map_cons, whole], ?_⟩
      intro j
      have part := parts j
      by_cases moved : j = i
      · subst moved
        rw [Function.update_self] at part
        rw [of_cons_self, stream, List.cons_prefix_cons]
        exact ⟨by rw [same], part⟩
      · rw [Function.update_of_ne moved] at part
        rw [of_cons_of_ne (Ne.symm moved)]
        exact part

end Interleaving
