import Mathlib.Data.List.Basic
import Mathlib.Tactic.Common

namespace Framing

variable {α : Type} {n : Nat} {l : List α}

def blocks (n : Nat) (l : List α) : List (List α) := (List.range (l.length / n)).map fun i => (l.drop (n * i)).take n

def rest (n : Nat) (l : List α) : List α := l.drop (n * (l.length / n))

theorem rest_length (n : Nat) (l : List α) : (rest n l).length = l.length % n := by
  rw [rest, List.length_drop, Nat.mod_eq_sub_mul_div]

theorem blocks_of_short (short : l.length < n) : blocks n l = [] := by
  rw [blocks, Nat.div_eq_of_lt short]
  rfl

theorem rest_of_short (short : l.length < n) : rest n l = l := by
  rw [rest, Nat.div_eq_of_lt short, Nat.mul_zero, List.drop_zero]

theorem blocks_of_long (some : 0 < n) (long : n ≤ l.length) : blocks n l = l.take n :: blocks n (l.drop n) := by
  have count : l.length / n = (l.drop n).length / n + 1 := by
    rw [List.length_drop, Nat.div_eq_sub_div some long]
  rw [blocks, count, List.range_succ_eq_map, List.map_cons, List.map_map, blocks]
  congr 1
  apply List.map_congr_left
  intro i _
  rw [Function.comp_apply, List.drop_drop, Nat.mul_succ, Nat.add_comm]

theorem rest_of_long (some : 0 < n) (long : n ≤ l.length) : rest n l = rest n (l.drop n) := by
  rw [rest, rest, List.drop_drop, List.length_drop, Nat.div_eq_sub_div some long, Nat.mul_succ, Nat.add_comm]

/-- Cutting a stream and then what follows it is cutting the whole, whatever the cut. -/
theorem append (some : 0 < n) (l m : List α) :
    blocks n (l ++ m) = blocks n l ++ blocks n (rest n l ++ m) ∧ rest n (l ++ m) = rest n (rest n l ++ m) := by
  by_cases short : l.length < n
  · rw [blocks_of_short short, rest_of_short short]
    exact ⟨rfl, rfl⟩
  · have long : n ≤ l.length := Nat.not_lt.mp short
    have longer : n ≤ (l ++ m).length := by
      rw [List.length_append]
      exact Nat.le_add_right_of_le long
    have shorter : (l.drop n).length < l.length := by
      rw [List.length_drop]
      omega
    rcases append some (l.drop n) m with ⟨cut, left⟩
    rw [blocks_of_long some longer, rest_of_long some longer, blocks_of_long some long, rest_of_long some long,
      List.take_append_of_le_length long, List.drop_append_of_le_length long, cut, left]
    exact ⟨rfl, rfl⟩
termination_by l.length

end Framing
