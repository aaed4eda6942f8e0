import Mathlib.Algebra.Order.BigOperators.Group.List
import Mathlib.Algebra.Order.Ring.Nat
import Titan.Book.Allocation
import Titan.Pipeline.MatcherLoop
import Titan.Ui.State

namespace Titan

open PinNode OrderBook SnapshotBuffer MatcherLoop

namespace Ui

def State.bestBid (s : State) : Option Int := s.bids.head?.map Prod.fst
def State.bestAsk (s : State) : Option Int := s.asks.head?.map Prod.fst

variable {bookDepth cap : Nat} {b : OrderBook} {ladders : Half → Ladder} {h : Half}

theorem level_order (settled : Settled b cap ladders) {l : SnapshotLevel} (member : l ∈ b.l2 h) :
    ∃ o ∈ (ladders h).orders, o.price = l.price := by
  have exact := settled.exact h
  have waits := (exact.prices l.price).mp ⟨l, member, rfl⟩
  rcases List.exists_mem_of_ne_nil _ waits with ⟨o, held⟩
  rw [settled.queueAt_eq, List.mem_filter, decide_eq_true_eq] at held
  exact ⟨o, held.1, held.2⟩

end Ui

end Titan
