import Mathlib.Algebra.Ring.Nat
import Mathlib.Tactic.Common

namespace Waterfall

/-- What each of the vessels gets of `want`: what those before it leave, as far as it holds it. -/
def pour (want : Nat) (sizes : List Nat) : List Nat := sizes.mapIdx fun i size => min size (want - (sizes.take i).sum)

theorem pour_cons (want size : Nat) (sizes : List Nat) : pour want (size :: sizes) = min size want :: pour (want - size) sizes := by
  rw [pour, List.mapIdx_cons, List.take_zero, List.sum_nil, Nat.sub_zero, pour]
  congr 2
  funext i size'
  rw [List.take_succ_cons, List.sum_cons, Nat.sub_sub]

theorem pour_zero (sizes : List Nat) : pour 0 sizes = List.replicate sizes.length 0 := by
  induction sizes with
  | nil => rfl
  | cons size rest ih => rw [pour_cons, Nat.zero_sub, ih, Nat.min_zero, List.length_cons, List.replicate_succ]

end Waterfall
