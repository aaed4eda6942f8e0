import Mathlib.Data.List.SplitBy

namespace Groups

variable {α β κ : Type} [DecidableEq κ] {key : α → κ} {l g : List α} {front : List (List α)} {x : α}

/-- The maximal stretches of items with one key. -/
def groups (key : α → κ) (l : List α) : List (List α) := l.splitBy fun a b => decide (key a = key b)

theorem groups_flatten (key : α → κ) (l : List α) : (groups key l).flatten = l := List.flatten_splitBy ..

theorem ne_nil_of_mem (member : g ∈ groups key l) : g ≠ [] := List.ne_nil_of_mem_splitBy member

theorem ne_nil_of_split (split : groups key l = front ++ [g]) : g ≠ [] := by
  have member : g ∈ groups key l := by
    rw [split]
    exact List.mem_append_right _ (List.mem_singleton.mpr rfl)
  exact ne_nil_of_mem member

theorem groups_concat_new (apart : ∀ a ∈ l.getLast?, key a ≠ key x) : groups key (l ++ [x]) = groups key l ++ [[x]] := by
  apply List.splitBy_append
  intro a last b first
  cases first
  exact decide_eq_false (apart a last)

theorem groups_concat_same (split : groups key l = front ++ [g]) (same : ∀ a ∈ g.getLast?, key a = key x) :
    groups key (l ++ [x]) = front ++ [g ++ [x]] := by
  rcases List.splitBy_eq_iff.mp split with ⟨whole, inhabited, chains, breaks⟩
  apply List.splitBy_eq_iff.mpr
  have some : g ≠ [] := ne_nil_of_split split
  refine ⟨?_, ?_, ?_, ?_⟩
  · rw [whole]
    simp
  · simpa using fun none => inhabited (List.mem_append_left _ none)
  · intro m member
    rcases List.mem_append.mp member with early | last
    · exact chains m (List.mem_append_left _ early)
    · rw [List.mem_singleton.mp last]
      apply List.isChain_append.mpr
      refine ⟨chains g (List.mem_append_right _ (List.mem_singleton.mpr rfl)), List.isChain_singleton x, ?_⟩
      intro a here b first
      cases first
      exact decide_eq_true (same a here)
  · rw [List.isChain_append] at breaks ⊢
    refine ⟨breaks.1, List.isChain_singleton _, ?_⟩
    intro a here b first
    cases first
    rcases breaks.2.2 a here g rfl with ⟨ha, hb, apart⟩
    refine ⟨ha, by simp, ?_⟩
    rw [List.head_append_of_ne_nil hb]
    exact apart

/-- What a program keeps that closes a stretch when the next one opens. -/
structure Acc (β : Type) where
  done : List β := []
  cur : Option β := none

def Acc.push (key : α → κ) (keyOf : β → κ) (single : α → β) (extend : β → α → β) (acc : Acc β) (x : α) : Acc β :=
  match acc.cur with
  | none => { acc with cur := some (single x) }
  | some b =>
    if keyOf b = key x then { acc with cur := some (extend b x) } else { done := acc.done ++ [b], cur := some (single x) }

theorem key_of_mem (member : g ∈ groups key l) : ∀ a ∈ g, ∀ b ∈ g, key a = key b := by
  have chain : g.IsChain fun a b => key a = key b :=
    (List.isChain_of_mem_splitBy member).imp fun a b same => of_decide_eq_true same
  have : Trans (fun a b => key a = key b) (fun a b => key a = key b) (fun a b : α => key a = key b) := ⟨Eq.trans⟩
  have pairwise := List.isChain_iff_pairwise.mp chain
  intro a here b there
  have ordered := List.pairwise_iff_getElem.mp pairwise
  rcases List.mem_iff_getElem.mp here with ⟨i, bound, rfl⟩
  rcases List.mem_iff_getElem.mp there with ⟨j, bound', rfl⟩
  rcases Nat.lt_trichotomy i j with less | rfl | less
  · exact ordered i j bound bound' less
  · rfl
  · exact (ordered j i bound' bound less).symm

theorem last_of_split (split : groups key l = front ++ [g]) : l.getLast? = g.getLast? := by
  have some : g ≠ [] := ne_nil_of_split split
  have whole := groups_flatten key l
  rw [split, List.flatten_append, List.flatten_singleton] at whole
  rw [← whole, List.getLast?_append_of_ne_nil _ some]

theorem foldl_push {keyOf : β → κ} {single : α → β} {extend : β → α → β} (sum : List α → β) (one : ∀ x, sum [x] = single x)
    (more : ∀ g x, g ≠ [] → sum (g ++ [x]) = extend (sum g) x)
    (keyed : ∀ g a, g.getLast? = some a → (∀ b ∈ g, key b = key a) → keyOf (sum g) = key a) (l : List α) :
    l.foldl (Acc.push key keyOf single extend) {} =
      { done := ((groups key l).map sum).dropLast, cur := ((groups key l).map sum).getLast? } := by
  induction l using List.reverseRecOn with
  | nil => rfl
  | append_singleton l x ih =>
    rw [List.foldl_append, ih, List.foldl_cons, List.foldl_nil]
    rcases List.eq_nil_or_concat (groups key l) with none | ⟨front, g, split⟩
    · have empty : l = [] := by
        rw [← groups_flatten key l, none]
        rfl
      subst empty
      show (⟨[], some (single x)⟩ : Acc β) = ⟨([[x]].map sum).dropLast, ([[x]].map sum).getLast?⟩
      rw [← one x]
      rfl
    · rw [List.concat_eq_append] at split
      have member : g ∈ groups key l := by
        rw [split]
        exact List.mem_append_right _ (List.mem_singleton.mpr rfl)
      have inhabited := ne_nil_of_split split
      rcases Option.isSome_iff_exists.mp (List.getLast?_isSome.mpr inhabited) with ⟨a, last⟩
      have named := keyed g a last fun b there => key_of_mem member b there a (List.mem_of_getLast? last)
      simp only [split, List.map_append, List.map_cons, List.map_nil, List.dropLast_concat, List.getLast?_concat, Acc.push, named]
      by_cases same : key a = key x
      · have joined : groups key (l ++ [x]) = front ++ [g ++ [x]] := by
          apply groups_concat_same split
          intro b here
          rw [Option.mem_unique here last]
          exact same
        simp only [if_pos same, joined, List.map_append, List.map_cons, List.map_nil, List.dropLast_concat, List.getLast?_concat,
          more g x inhabited]
      · have opened : groups key (l ++ [x]) = groups key l ++ [[x]] := by
          apply groups_concat_new
          intro b here
          rw [last_of_split split] at here
          rw [Option.mem_unique here last]
          exact same
        simp only [if_neg same, opened, split, List.map_append, List.map_cons, List.map_nil, List.dropLast_concat,
          List.getLast?_concat, one x]

end Groups
