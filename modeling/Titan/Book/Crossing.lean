import Titan.Book.BookOps

namespace Titan

open RedBlack Linked PinNode

namespace Matcher

open OrderBook

variable {cap : Nat} {ladders : Half → Ladder}

structure Crossed (m m' : Matcher) (cap : Nat) (ladders : Half → Ladder) (opp : Half) (crossed : Ladder.Sweep Ladder) :
    Prop where
  settled : Settled m'.book cap (Function.update ladders opp crossed.left)
  kept : Kept m.book m'.book
  taker : m'.taker = crossed.taker
  events : m'.events = m.events ++ crossed.events
  result : m'.result = { m.result with trades := m.result.trades + UInt32.ofNat crossed.events.length }

theorem Crossed.idle {m : Matcher} {opp : Half} (settled : Settled m.book cap ladders) :
    Crossed m m cap ladders opp { left := ladders opp, taker := m.taker, events := [] } where
  settled := by rw [Function.update_eq_self]; exact settled
  kept := Kept.refl _
  taker := rfl
  events := (List.append_nil _).symm
  result := by simp

theorem crossLoop_done {fuel : Nat} {m : Matcher} (opp : Half) (takerBuy : Bool) (more : 0 < fuel)
    (done : m.taker.remaining = 0) : crossLoop opp takerBuy fuel m = some m := by
  cases fuel with
  | zero => exact absurd more (Nat.lt_irrefl 0)
  | succ fuel => rw [crossLoop, if_neg fun both => both.1 done]

theorem Crossed.after {m m₁ m₂ : Matcher} {opp : Half} {rest : Ladder} {swept : Ladder.Sweep (List Order)}
    {crossed : Ladder.Sweep Ladder} (kept : Kept m.book m₁.book) (events : m₁.events = m.events ++ swept.events)
    (result : m₁.result = { m.result with trades := m.result.trades + UInt32.ofNat swept.events.length })
    (later : Crossed m₁ m₂ cap (Function.update ladders opp rest) opp crossed) :
    Crossed m m₂ cap ladders opp { crossed with events := swept.events ++ crossed.events } where
  settled := by
    have moved := later.settled
    rw [Function.update_idem] at moved
    exact moved
  kept := kept.trans later.kept
  taker := later.taker
  events := by rw [later.events, events, List.append_assoc]
  result := by
    rw [later.result, result]
    simp only [List.length_append, UInt32.ofNat_add, UInt32.add_assoc]

/-- The loop condition of `cross`: the best level is there and within the price of the order. -/
def goesOn (opp : Half) (takerBuy : Bool) (m : Matcher) : Bool :=
  decide (m.taker.remaining ≠ 0) && !(m.book.maps opp).empty &&
    crosses m.taker takerBuy (m.book.level opp (m.book.maps opp).begin_).price

def crossRound (opp : Half) (takerBuy : Bool) (m : Matcher) : Option Matcher := do
  let i := (m.book.maps opp).begin_
  let (m, lvl) ← m.sweepLevel takerBuy (m.book.level opp i)
  let m := { m with book := m.book.setLevel opp i lvl }
  if lvl.orderCount = 0 then
    let b ← m.book.reclaimLevel opp i lvl
    some { m with book := b }
  else some m

theorem crossLoop_succ (opp : Half) (takerBuy : Bool) (fuel : Nat) (m : Matcher) :
    crossLoop opp takerBuy (fuel + 1) m =
      if m.goesOn opp takerBuy = true then (m.crossRound opp takerBuy).bind (crossLoop opp takerBuy fuel) else some m := by
  rw [crossLoop]
  by_cases some : m.taker.remaining ≠ 0 ∧ (m.book.maps opp).empty = false
  · rw [if_pos some]
    cases price : crosses m.taker takerBuy (m.book.level opp (m.book.maps opp).begin_).price with
    | false => simp [goesOn, price]
    | true =>
      have goes : m.goesOn opp takerBuy = true := by simp [goesOn, price, some]
      simp only [goes, price, crossRound, if_true, Bool.true_eq_false, if_false, Option.bind_eq_bind, Option.bind_assoc]
      congr 1
      funext swept
      split
      · rw [Option.bind_assoc]
        rfl
      · rfl
  · have stops : m.goesOn opp takerBuy = false := by
      rw [not_and_or, not_not, Bool.not_eq_false] at some
      rcases some with zero | empty
      · simp [goesOn, zero]
      · simp [goesOn, empty]
    rw [if_neg some, stops]
    rfl

/-- What one round does to the ladder, level by level. -/
structure Round (m m' : Matcher) (cap : Nat) (ladders : Half → Ladder) (opp : Half) (price : PriceTick) (rest : Ladder)
    (swept : Ladder.Sweep (List Order)) : Prop where
  settled : Settled m'.book cap (Function.update ladders opp (if swept.left = [] then rest else (price, swept.left) :: rest))
  kept : Kept m.book m'.book
  taker : m'.taker = swept.taker
  events : m'.events = m.events ++ swept.events
  result : m'.result = { m.result with trades := m.result.trades + UInt32.ofNat swept.events.length }

theorem settled_best {b : OrderBook} {opp : Half} {price : PriceTick} {queue : List Order} {rest : Ladder}
    (settled : Settled b cap ladders) (best : ladders opp = (price, queue) :: rest) :
    ∃ L i cells, Rep b cap L ∧ L.ladder b = ladders ∧ (b.maps opp).begin_ = i ∧ (L.tree opp).inorder = i :: cells ∧
      (b.maps opp).key i = price ∧ (L.chain opp i).queue b.nodes = queue ∧ L.rungs b opp cells = rest := by
  rcases settled.rep with ⟨L, rep, rfl⟩
  cases form : (L.tree opp).inorder with
  | nil =>
    rw [Layout.ladder, form] at best
    cases best
  | cons i cells =>
    have ladder := Layout.ladder_split b (show (L.tree opp).inorder = [] ++ i :: cells from form)
    rw [best] at ladder
    cases ladder
    refine ⟨L, i, cells, rep, rfl, ?_, form, rfl, rfl, rfl⟩
    rw [(rep.valid opp).first, form]
    rfl

theorem ladder_length {b : OrderBook} (settled : Settled b cap ladders) (opp : Half) :
    (b.maps opp).size_ = (ladders opp).length := by
  rcases settled.rep with ⟨L, rep, rfl⟩
  rw [(rep.valid opp).count, ← RBTree.inorder_length, Layout.ladder, Layout.rungs, List.length_map]

theorem goesOn_nil {m : Matcher} {opp : Half} (settled : Settled m.book cap ladders) (none : ladders opp = []) (takerBuy : Bool) :
    m.goesOn opp takerBuy = false := by
  have size := ladder_length settled opp
  rw [none] at size
  simp [goesOn, RBPriceIndex.empty, size]

theorem goesOn_cons {m : Matcher} {opp : Half} {price : PriceTick} {queue : List Order} {rest : Ladder}
    (settled : Settled m.book cap ladders) (best : ladders opp = (price, queue) :: rest) (takerBuy : Bool) :
    m.goesOn opp takerBuy = true ↔ ¬(m.taker.remaining = 0 ∨ crosses m.taker takerBuy price = false) := by
  have size := ladder_length settled opp
  rcases settled_best settled best with ⟨L, i, cells, rep, -, first, form, key, -, -⟩
  have named := (rep.levels opp i (by rw [form]; exact List.mem_cons_self)).named
  rw [best, List.length_cons] at size
  rw [goesOn, first, named, key, RBPriceIndex.empty, size]
  simp

theorem crossRound_spec (opp : Half) (takerBuy : Bool) {m : Matcher} {price : PriceTick} {queue : List Order} {rest : Ladder}
    (settled : Settled m.book cap ladders) (best : ladders opp = (price, queue) :: rest) :
    ∃ m₁ lvl m', m.sweepLevel takerBuy (m.book.level opp (m.book.maps opp).begin_) = some (m₁, lvl) ∧
      m₁.taker = (Ladder.sweep takerBuy m.taker queue).taker ∧
      (lvl.orderCount = 0 ↔ (Ladder.sweep takerBuy m.taker queue).left = []) ∧ m.crossRound opp takerBuy = some m' ∧
      Round m m' cap ladders opp price rest (Ladder.sweep takerBuy m.taker queue) := by
  rcases settled_best settled best with ⟨L, i, cells, rep, rfl, first, form, rfl, rfl, rfl⟩
  have split : (L.tree opp).inorder = [] ++ i :: cells := form
  have member : i ∈ (L.tree opp).inorder := by
    rw [form]
    exact List.mem_cons_self
  rcases sweepLevel_spec takerBuy (rep.focus member) (rep.levels opp i member) with ⟨m₁, lvl, chain, call, swept⟩
  have emptied := swept.level.count_zero_iff swept.stock
  rw [swept.queue] at emptied
  have rep₁ := (rep.spare opp i).put member swept.frame swept.stock swept.level
  have ladder₁ := (rep.spare opp i).put_ladder chain lvl split swept.frame
  rw [swept.queue] at ladder₁
  have kept₁ : Kept m.book (m₁.book.setLevel opp i lvl) :=
    ⟨swept.frame.nodeCount, swept.frame.slabSize, swept.frame.repairs⟩
  have tail : ∀ rung ∈ L.rungs m.book opp cells, rung.2 ≠ [] := by
    intro rung held
    exact settled.inhabited opp rung (by rw [best]; exact List.mem_cons_of_mem _ held)
  rw [crossRound, first, call]
  simp only [Option.bind_eq_bind, Option.bind_some]
  by_cases gone : (Ladder.sweep takerBuy m.taker ((L.chain opp i).queue m.book.nodes)).left = []
  · -- the level is empty: its nodes and its cell go back
    rw [gone] at ladder₁
    have drained : ((L.setChain opp i chain).chain opp i).queue (m₁.book.setLevel opp i lvl).nodes = [] := by
      rw [Layout.setChain_self]
      exact swept.queue.trans gone
    have here := congrFun ladder₁ opp
    have key : ((m₁.book.setLevel opp i lvl).maps opp).key i = (m.book.maps opp).key i := by
      rw [setLevel_key, swept.frame.maps]
    rw [Function.update_self, ← key] at here
    rcases reclaimLevel_spec rep₁ member drained here with ⟨b', L', reclaimed, rep', kept, ladder'⟩
    rw [setLevel_level_self] at reclaimed
    rw [ladder₁, Function.update_idem] at ladder'
    rw [if_pos (emptied.mpr gone), reclaimed]
    refine ⟨m₁, lvl, _, rfl, swept.taker, emptied, rfl, ?_, kept₁.trans kept, swept.taker, swept.events, swept.result⟩
    rw [if_pos gone]
    exact settled.update rep' ladder' tail
  · rw [if_neg fun zero => gone (emptied.mp zero)]
    refine ⟨m₁, lvl, _, rfl, swept.taker, emptied, rfl, ?_, kept₁, swept.taker, swept.events, swept.result⟩
    rw [if_neg gone]
    apply settled.update rep₁ ladder₁
    intro rung held
    rcases List.mem_cons.mp held with rfl | later
    · exact gone
    · exact tail rung later

theorem crossLoop_spec (opp : Half) (takerBuy : Bool) (fuel : Nat) {m : Matcher} (settled : Settled m.book cap ladders)
    (enough : (ladders opp).length < fuel) :
    ∃ m', crossLoop opp takerBuy fuel m = some m' ∧
      Crossed m m' cap ladders opp (Ladder.cross takerBuy m.taker (ladders opp)) := by
  induction fuel generalizing m ladders with
  | zero => exact absurd enough (Nat.not_lt_zero _)
  | succ fuel ih =>
    rw [crossLoop_succ]
    cases best : ladders opp with
    | nil =>
      rw [goesOn_nil settled best]
      refine ⟨m, rfl, ?_⟩
      rw [Ladder.cross]
      exact best ▸ Crossed.idle settled
    | cons rung rest =>
      rcases rung with ⟨price, queue⟩
      have goes := goesOn_cons settled best takerBuy
      rw [Ladder.cross]
      by_cases stops : m.taker.remaining = 0 ∨ crosses m.taker takerBuy price = false
      · rw [if_neg fun going => goes.mp going stops, if_pos stops, ← best]
        exact ⟨m, rfl, Crossed.idle settled⟩
      · rw [if_pos (goes.mpr stops), if_neg stops]
        rcases crossRound_spec opp takerBuy settled best with ⟨_, _, m₁, -, -, -, round, after⟩
        have settled₁ := after.settled
        rw [best, List.length_cons] at enough
        rw [round, Option.bind_some]
        by_cases gone : (Ladder.sweep takerBuy m.taker queue).left = []
        · simp only [gone, if_pos]
          rw [if_pos gone] at settled₁
          have short : (Function.update ladders opp rest opp).length < fuel := by
            rw [Function.update_self]
            exact Nat.lt_of_succ_lt_succ enough
          rcases ih settled₁ short with ⟨m', looped, crossed⟩
          rw [Function.update_self, after.taker] at crossed
          exact ⟨m', looped, Crossed.after after.kept after.events after.result crossed⟩
        · simp only [gone, if_false]
          rw [if_neg gone] at settled₁
          have exhausted : m₁.taker.remaining = 0 := by
            rw [after.taker]
            exact Ladder.sweep_exhausts takerBuy m.taker _ gone
          refine ⟨m₁, crossLoop_done opp takerBuy (by omega) exhausted, ?_⟩
          exact ⟨settled₁, after.kept, after.taker, after.events, after.result⟩

theorem cross_spec (opp : Half) (takerBuy : Bool) {m : Matcher} (settled : Settled m.book cap ladders) :
    ∃ m', m.cross opp takerBuy = some m' ∧
      Crossed m m' cap ladders opp (Ladder.cross takerBuy m.taker (ladders opp)) := by
  apply crossLoop_spec opp takerBuy _ settled
  rw [ladder_length settled opp]
  exact Nat.lt_succ_self _

def crossing (ladders : Half → Ladder) (o : Order) : Ladder.Sweep Ladder :=
  Ladder.cross (decide (o.side = Side.BUY)) o (ladders (Half.ofSide o.side).opposite)

def crossedLadders (ladders : Half → Ladder) (o : Order) : Half → Ladder :=
  Function.update ladders (Half.ofSide o.side).opposite (crossing ladders o).left

def crossedResult (ladders : Half → Ladder) (o : Order) : MatchResult where
  filled := o.remaining - (crossing ladders o).taker.remaining
  residual := (crossing ladders o).taker.remaining
  trades := UInt32.ofNat (crossing ladders o).events.length

/-- What one call of `submit` does to a book, and what it shows. -/
inductive Submitted (b : OrderBook) (cap : Nat) (ladders : Half → Ladder) (o : Order) :
    OrderBook → List TradeEvent → MatchResult → Prop
  | canceled {b' : OrderBook} {canceled : Bool} (type : o.type = OrderType.CANCEL)
      (outcome : Canceled cap ladders o.id b' canceled) : Submitted b cap ladders o b' [] { canceled := canceled }
  | inadmissible (type : o.type ≠ OrderType.CANCEL) (bad : isAdmissible o = false) (settled : Settled b cap ladders) :
      Submitted b cap ladders o b [rejectEvent o] { residual := o.remaining, rejected := true }
  | discarded {b' : OrderBook} (type : o.type ≠ OrderType.CANCEL) (good : isAdmissible o = true)
      (finished : ¬((crossing ladders o).taker.remaining ≠ 0 ∧ o.type = OrderType.LIMIT))
      (settled : Settled b' cap (crossedLadders ladders o)) :
      Submitted b cap ladders o b' (crossing ladders o).events (crossedResult ladders o)
  | rested {m : Matcher} {b' : OrderBook} {rested : Bool} (type : o.type ≠ OrderType.CANCEL) (good : isAdmissible o = true)
      (residual : (crossing ladders o).taker.remaining ≠ 0 ∧ o.type = OrderType.LIMIT)
      (call : ({ book := b, taker := o } : Matcher).crossOpposite = some m) (size : m.book.slabSize = b.slabSize)
      (settled : Settled m.book cap (crossedLadders ladders o))
      (outcome : Added m.book cap (crossedLadders ladders o) (crossing ladders o).taker b' rested) :
      Submitted b cap ladders o b'
        ((crossing ladders o).events ++ if rested then [] else [rejectEvent (crossing ladders o).taker])
        { crossedResult ladders o with rested := rested, rejected := !rested }

theorem crossOpposite_spec {m : Matcher} (settled : Settled m.book cap ladders) :
    ∃ m', m.crossOpposite = some m' ∧
      Crossed m m' cap ladders (Half.ofSide m.taker.side).opposite (crossing ladders m.taker) := by
  by_cases none : m.taker.remaining = 0
  · refine ⟨m, by rw [crossOpposite, if_neg (not_not.mpr none)], ?_⟩
    rw [crossing, Ladder.cross_done _ _ none]
    exact Crossed.idle settled
  · rw [crossOpposite, if_pos none, crossing]
    by_cases buy : m.taker.side = Side.BUY
    · rw [if_pos buy, Half.ofSide, if_pos buy, decide_eq_true buy]
      exact cross_spec .asks true settled
    · rw [if_neg buy, Half.ofSide, if_neg buy, decide_eq_false buy]
      exact cross_spec .bids false settled

theorem submit_spec {b : OrderBook} (settled : Settled b cap ladders) (o : Order) :
    ∃ b' events result, submit b o = some (b', events, result) ∧ Kept b b' ∧
      Submitted b cap ladders o b' events result := by
  by_cases type : o.type = OrderType.CANCEL
  · rcases cancel_spec settled o.id with ⟨b', canceled, call, kept, outcome⟩
    refine ⟨b', [], { canceled := canceled }, ?_, kept, .canceled type outcome⟩
    simp only [submit, if_pos type, call, Option.bind_eq_bind, Option.bind_some]
  by_cases bad : isAdmissible o = false
  · refine ⟨b, _, _, ?_, Kept.refl b, .inadmissible type bad settled⟩
    simp only [submit, if_neg type, if_pos bad, emitReject]
    rfl
  have good : isAdmissible o = true := by simpa using bad
  rcases crossOpposite_spec (m := { book := b, taker := o }) settled with ⟨m, call, crossed⟩
  have taker := crossed.taker
  have events := crossed.events
  have result : { m.result with
      filled := o.remaining - m.taker.remaining
      residual := m.taker.remaining } = crossedResult ladders o := by
    rw [crossed.result, taker]
    simp [crossedResult]
  rcases Ladder.cross_taker (decide (o.side = Side.BUY)) o (ladders (Half.ofSide o.side).opposite) with ⟨r, same⟩
  have kind : m.taker.type = o.type := by
    rw [taker, crossing, same]
    rfl
  simp only [submit, if_neg type, if_neg bad, call, Option.bind_eq_bind, Option.bind_some, result]
  by_cases residual : m.taker.remaining ≠ 0 ∧ m.taker.type = OrderType.LIMIT
  · rcases add_spec crossed.settled m.taker with ⟨b', rested, added, kept, outcome⟩
    refine ⟨b', (crossing ladders o).events ++ if rested then [] else [rejectEvent (crossing ladders o).taker],
      { crossedResult ladders o with rested := rested, rejected := !rested }, ?_, crossed.kept.trans kept, ?_⟩
    · rw [restResidual, if_pos residual]
      simp only [added, Option.bind_eq_bind, Option.bind_some]
      cases rested with
      | true => simp [crossedResult, events]
      | false => simp [emitReject, crossedResult, events, taker]
    · rw [taker] at outcome
      rw [kind, taker] at residual
      exact .rested type good residual call crossed.kept.slabSize crossed.settled outcome
  · refine ⟨m.book, _, _, ?_, crossed.kept, .discarded type good ?_ crossed.settled⟩
    · rw [restResidual, if_neg residual]
      simp only [Option.bind_some, events, List.nil_append]
    · rwa [kind, taker] at residual

end Matcher

end Titan
