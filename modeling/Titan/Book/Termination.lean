import Titan.Book.BookRuns

namespace Titan

open PinNode

namespace Matcher

open OrderBook

variable {cap : Nat} {ladders : Half → Ladder} {opp : Half} {takerBuy : Bool} {m m' : Matcher} {k : Nat}

/-- The states at the head of the loop of `cross`, with the number of rounds behind them. -/
inductive Rounds (opp : Half) (takerBuy : Bool) (m : Matcher) : Nat → Matcher → Prop
  | start : Rounds opp takerBuy m 0 m
  | next {k : Nat} {m' m'' : Matcher} (prior : Rounds opp takerBuy m k m') (goes : m'.goesOn opp takerBuy = true)
      (round : m'.crossRound opp takerBuy = some m'') : Rounds opp takerBuy m (k + 1) m''

theorem goesOn_some (settled : Settled m.book cap ladders) (goes : m.goesOn opp takerBuy = true) :
    m.taker.remaining ≠ 0 ∧ ∃ price queue rest, ladders opp = (price, queue) :: rest := by
  cases best : ladders opp with
  | nil =>
    rw [goesOn_nil settled best] at goes
    cases goes
  | cons rung rest =>
    have going := (goesOn_cons settled best takerBuy).mp goes
    exact ⟨fun zero => going (.inl zero), rung.1, rung.2, rest, rfl⟩

theorem Rounds.progress (settled : Settled m.book cap ladders) (rounds : Rounds opp takerBuy m k m') :
    ∃ ladders', Settled m'.book cap ladders' ∧ k ≤ (ladders opp).length ∧
      (m'.taker.remaining ≠ 0 → k + (ladders' opp).length ≤ (ladders opp).length) := by
  induction rounds with
  | start => exact ⟨ladders, settled, Nat.zero_le _, fun _ => by omega⟩
  | @next k m' m'' prior goes round ih =>
    rcases ih with ⟨ladders', settled', -, shrunk⟩
    rcases goesOn_some settled' goes with ⟨more, price, queue, rest, best⟩
    have room := shrunk more
    rw [best, List.length_cons] at room
    rcases crossRound_spec opp takerBuy settled' best with ⟨_, _, _, -, -, -, again, after⟩
    rw [round] at again
    cases again
    refine ⟨_, after.settled, by omega, ?_⟩
    intro left
    have gone : (Ladder.sweep takerBuy m'.taker queue).left = [] := by
      by_contra kept
      rw [after.taker] at left
      exact left (Ladder.sweep_exhausts takerBuy m'.taker queue kept)
    rw [if_pos gone, Function.update_self]
    omega

theorem sweepLevel_exhausts (settled : Settled m.book cap ladders) (goes : m.goesOn opp takerBuy = true) :
    ∃ m₁ lvl m', m.sweepLevel takerBuy (m.book.level opp (m.book.maps opp).begin_) = some (m₁, lvl) ∧
      (m₁.taker.remaining = 0 ∨ lvl.orderCount = 0) ∧ m.crossRound opp takerBuy = some m' := by
  rcases goesOn_some settled goes with ⟨-, price, queue, rest, best⟩
  rcases crossRound_spec opp takerBuy settled best with ⟨m₁, lvl, m', swept, taker, emptied, round, -⟩
  refine ⟨m₁, lvl, m', swept, ?_, round⟩
  by_cases gone : (Ladder.sweep takerBuy m.taker queue).left = []
  · exact .inr (emptied.mpr gone)
  · rw [taker]
    exact .inl (Ladder.sweep_exhausts takerBuy m.taker queue gone)

/-- Matching a book that calls of `add`, `cancel` and `submit` have led to: every further call
    returns, `cross` goes round at most once for each level, and each of its sweeps returns with
    nothing left of the order or nothing left on the level. -/
theorem matching_terminates {b : OrderBook} {maxNodes idCapacity levelCapacity : Nat} (small : maxNodes * CAPACITY < 2 ^ 32)
    (reach : Transition.Reachable step (create maxNodes idCapacity levelCapacity) b) (o : Order) :
    (∀ call, ∃ b' reply, step call b = some (b', reply)) ∧ (∃ result, submit b o = some result) ∧
      ∀ opp takerBuy k m, Rounds opp takerBuy { book := b, taker := o } k m →
        k ≤ (b.maps opp).size_ ∧
        (m.goesOn opp takerBuy = true → ∃ m₁ lvl m',
          m.sweepLevel takerBuy (m.book.level opp (m.book.maps opp).begin_) = some (m₁, lvl) ∧
          ¬(m₁.taker.remaining ≠ 0 ∧ lvl.orderCount ≠ 0) ∧ m.crossRound opp takerBuy = some m') := by
  rcases reachable_settled small reach with ⟨ladders, settled, -⟩
  refine ⟨?_, ?_, ?_⟩
  · intro call
    rcases step_spec settled call with ⟨b', reply, -, returned, -, -⟩
    exact ⟨b', reply, returned⟩
  · rcases submit_spec settled o with ⟨b', events, result, returned, -, -⟩
    exact ⟨_, returned⟩
  · intro opp takerBuy k m rounds
    rcases rounds.progress settled with ⟨ladders', settled', few, -⟩
    rw [← ladder_length settled opp] at few
    refine ⟨few, ?_⟩
    intro goes
    rcases sweepLevel_exhausts settled' goes with ⟨m₁, lvl, m', swept, ended, round⟩
    refine ⟨m₁, lvl, m', swept, ?_, round⟩
    rintro ⟨more, held⟩
    exact ended.elim more held

def nothingFirst : List Call := [.add { sellTen with id := 3, remaining := 0 }, .add sellTen]

theorem matching_terminates_past_nothing : ∃ b m₁ lvl, Transition.run step nothingFirst (create 1 4 4) = some b ∧
    ({ book := b, taker := { buyFive with quantity := 12, remaining := 12 } } : Matcher).sweepLevel true (b.level .asks (b.maps .asks).begin_) = some (m₁, lvl) ∧
    ¬(m₁.taker.remaining ≠ 0 ∧ lvl.orderCount ≠ 0) := by
  have ran : (Transition.run step nothingFirst (create 1 4 4)).map
      (fun b => ({ book := b, taker := { buyFive with quantity := 12, remaining := 12 } } : Matcher).goesOn .asks true) = some true := by
    decide +kernel
  rcases Option.map_eq_some_iff.mp ran with ⟨b, reached, goes⟩
  have small : 1 * CAPACITY < 2 ^ 32 := by decide
  have facts := (matching_terminates small (Transition.Reachable.start.run reached) { buyFive with quantity := 12, remaining := 12 }).2.2 .asks true 0 _ .start
  rcases facts.2 goes with ⟨m₁, lvl, -, swept, ended, -⟩
  exact ⟨b, m₁, lvl, reached, swept, ended⟩

end Matcher

end Titan
