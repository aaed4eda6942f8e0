import Titan.Book.Rejection

namespace Titan

open RedBlack Linked PinNode

namespace Ladder

open Matcher (crosses fillQty)

theorem crosses_worse {taker : Order} {p q : PriceTick}
    (stops : crosses taker (decide (taker.side = Side.BUY)) p = false)
    (worse : PriceTime.better (Half.ofSide taker.side).opposite q p = false) :
    crosses taker (decide (taker.side = Side.BUY)) q = false := by
  unfold crosses at stops ⊢
  by_cases market : taker.type = OrderType.MARKET
  · rw [if_pos market] at stops
    cases stops
  rw [if_neg market] at stops ⊢
  by_cases buy : taker.side = Side.BUY
  · rw [Half.ofSide, if_pos buy] at worse
    simp only [decide_eq_true buy, if_true, decide_eq_false_iff_not, ge_iff_le, Int64.le_iff_toInt_le, Half.opposite,
      PriceTime.better, Int64.lt_iff_toInt_lt] at stops worse ⊢
    omega
  · rw [Half.ofSide, if_neg buy] at worse
    simp only [decide_eq_false buy, Bool.false_eq_true, if_false, decide_eq_false_iff_not, Int64.le_iff_toInt_le, Half.opposite,
      PriceTime.better, Int64.lt_iff_toInt_lt] at stops worse ⊢
    omega

/-- What is left of the makers: some of them, the first perhaps with less. -/
theorem crossOrders_left (takerBuy : Bool) (taker : Order) (makers : List Order) :
    ∀ o ∈ (crossOrders takerBuy taker makers).left, ∃ maker ∈ makers, ∃ r, o = maker.withRemaining r ∧
      (maker.remaining ≠ 0 → r ≠ 0) := by
  induction makers generalizing taker with
  | nil =>
    intro o member
    cases member
  | cons maker rest ih =>
    have whole : ∀ o ∈ maker :: rest, ∃ maker' ∈ maker :: rest, ∃ r, o = maker'.withRemaining r ∧
        (maker'.remaining ≠ 0 → r ≠ 0) := by
      intro o member
      exact ⟨o, member, o.remaining, rfl, id⟩
    intro o member
    rw [crossOrders] at member
    split at member
    · exact whole o member
    · by_cases gone : (fill takerBuy taker maker).left = []
      · simp only [gone, if_true] at member
        rcases ih _ o member with ⟨maker', inside, left⟩
        exact ⟨maker', List.mem_cons_of_mem _ inside, left⟩
      · simp only [gone, if_false] at member
        rcases List.mem_append.mp member with first | later
        · have empty : maker.remaining ≠ 0 := by
            intro zero
            rw [fill, if_pos zero] at gone
            exact gone rfl
          have left : maker.remaining - fillQty taker maker ≠ 0 := by
            intro full
            rw [fill_full takerBuy empty full] at gone
            exact gone rfl
          rw [fill_part takerBuy empty left] at first
          exact ⟨maker, List.mem_cons_self, _, List.mem_singleton.mp first, fun _ => left⟩
        · exact whole o (List.mem_cons_of_mem _ later)

theorem crossOrders_apart (taker : Order) (makers : List Order)
    (ranked : PriceTime.Ranked (Half.ofSide taker.side).opposite makers)
    (more : (crossOrders (decide (taker.side = Side.BUY)) taker makers).taker.remaining ≠ 0) :
    ∀ o ∈ (crossOrders (decide (taker.side = Side.BUY)) taker makers).left,
      crosses taker (decide (taker.side = Side.BUY)) o.price = false := by
  induction makers generalizing taker with
  | nil =>
    intro o member
    cases member
  | cons maker rest ih =>
    have sorted := List.pairwise_cons.mp ranked
    rw [crossOrders] at more ⊢
    by_cases stops : taker.remaining = 0 ∨ crosses taker (decide (taker.side = Side.BUY)) maker.price = false
    · rw [if_pos stops] at more ⊢
      have miss := stops.resolve_left more
      intro o member
      rcases List.mem_cons.mp member with rfl | later
      · exact miss
      · exact crosses_worse miss (sorted.1 o later)
    · rw [if_neg stops] at more ⊢
      by_cases gone : (fill (decide (taker.side = Side.BUY)) taker maker).left = []
      · simp only [gone, if_true] at more ⊢
        rcases fill_taker (decide (taker.side = Side.BUY)) taker maker with ⟨r, filled⟩
        rw [filled] at more ⊢
        have later := ih (taker.withRemaining r) sorted.2 more
        intro o member
        exact later o member
      · simp only [gone, if_false] at more
        exact absurd (fill_exhausts gone) more

end Ladder

namespace OrderBook

variable {b b' : OrderBook} {cap : Nat} {ladders : Half → Ladder} {o : Order}

def bestBid (b : OrderBook) : Option PriceLevel :=
  if (b.maps .bids).empty then none else some (b.level .bids (b.maps .bids).begin_)

def bestAsk (b : OrderBook) : Option PriceLevel :=
  if (b.maps .asks).empty then none else some (b.level .asks (b.maps .asks).begin_)

/-- The orders that `submit` leaves on a book. -/
structure Clean (ladders : Half → Ladder) : Prop where
  sound : ∀ h, ∀ o ∈ (ladders h).orders, o.type = OrderType.LIMIT ∧ o.remaining ≠ 0 ∧ isValidPrice o.price = true
  apart : ∀ bid ∈ (ladders .bids).orders, ∀ ask ∈ (ladders .asks).orders, bid.price < ask.price

theorem Clean.mono {ladders' : Half → Ladder} (clean : Clean ladders)
    (fewer : ∀ h, ∀ o' ∈ (ladders' h).orders, ∃ o ∈ (ladders h).orders, ∃ r, o' = o.withRemaining r ∧ (o.remaining ≠ 0 → r ≠ 0)) :
    Clean ladders' where
  sound h o' member := by
    rcases fewer h o' member with ⟨o, inside, r, rfl, some⟩
    rcases clean.sound h o inside with ⟨type, left, price⟩
    exact ⟨type, some left, price⟩
  apart bid bidding ask asking := by
    rcases fewer .bids bid bidding with ⟨o, inside, r, rfl, -⟩
    rcases fewer .asks ask asking with ⟨o', inside', r', rfl, -⟩
    exact clean.apart o inside o' inside'

theorem Clean.withdrawn {h : Half} {price : PriceTick} {ladder : Ladder} (clean : Clean ladders)
    (withdrawn : Ladder.Withdrawn price o (ladders h) ladder) : Clean (Function.update ladders h ladder) := by
  rcases withdrawn_orders withdrawn with ⟨l₁, l₂, before, after⟩
  apply clean.mono
  intro h' o' member
  refine ⟨o', ?_, o'.remaining, rfl, id⟩
  by_cases here : h' = h
  · subst here
    rw [Function.update_self, after] at member
    rw [before]
    rcases List.mem_append.mp member with early | late
    · exact List.mem_append_left _ early
    · exact List.mem_append_right _ (List.mem_cons_of_mem _ late)
  · rwa [Function.update_of_ne here] at member

theorem Clean.crossed (clean : Clean ladders) (settled : Settled b cap ladders) (o : Order) :
    Clean (Matcher.crossedLadders ladders o) := by
  have left := Ladder.crossOrders_left (decide (o.side = Side.BUY)) o (ladders (Half.ofSide o.side).opposite).orders
  rw [Matcher.crossing_flat settled o] at left
  apply clean.mono
  intro h o' member
  by_cases here : h = (Half.ofSide o.side).opposite
  · subst here
    rw [Matcher.crossedLadders, Function.update_self] at member
    exact left o' member
  · rw [Matcher.crossedLadders, Function.update_of_ne here] at member
    exact ⟨o', member, o'.remaining, rfl, id⟩

theorem Clean.placed {ladder : Ladder} (clean : Clean ladders)
    (joins : ∀ o' ∈ ladder.orders, o' = o ∨ o' ∈ (ladders (Half.ofSide o.side)).orders) (limit : o.type = OrderType.LIMIT)
    (some : o.remaining ≠ 0) (valid : isValidPrice o.price = true)
    (apart : ∀ o' ∈ (ladders (Half.ofSide o.side).opposite).orders,
      Matcher.crosses o (decide (o.side = Side.BUY)) o'.price = false) :
    Clean (Function.update ladders (Half.ofSide o.side) ladder) where
  sound h o' member := by
    by_cases here : h = Half.ofSide o.side
    · subst here
      rw [Function.update_self] at member
      rcases joins o' member with rfl | old
      · exact ⟨limit, some, valid⟩
      · exact clean.sound _ o' old
    · rw [Function.update_of_ne here] at member
      exact clean.sound h o' member
  apart bid bidding ask asking := by
    have market : ¬o.type = OrderType.MARKET := by
      rw [limit]
      decide
    by_cases buy : o.side = Side.BUY
    · rw [Half.ofSide, if_pos buy] at joins apart bidding asking
      rw [Function.update_self] at bidding
      rw [Function.update_of_ne (by decide)] at asking
      rcases joins bid bidding with rfl | old
      · have miss := apart ask asking
        simp only [Matcher.crosses, if_neg market, decide_eq_true buy, if_true, decide_eq_false_iff_not, ge_iff_le] at miss
        exact Int64.not_le.mp miss
      · exact clean.apart bid old ask asking
    · rw [Half.ofSide, if_neg buy] at joins apart bidding asking
      rw [Function.update_self] at asking
      rw [Function.update_of_ne (by decide)] at bidding
      rcases joins ask asking with rfl | old
      · have miss := apart bid bidding
        simp only [Matcher.crosses, if_neg market, decide_eq_false buy, Bool.false_eq_true, if_false,
          decide_eq_false_iff_not] at miss
        exact Int64.not_le.mp miss
      · exact clean.apart bid bidding ask old

theorem Clean.submitted {events : List TradeEvent} {result : MatchResult} (clean : Clean ladders)
    (settled : Settled b cap ladders) (outcome : Matcher.Submitted b cap ladders o b' events result) :
    ∃ ladders', Settled b' cap ladders' ∧ Clean ladders' := by
  cases outcome with
  | canceled _ outcome =>
    cases outcome with
    | removed _ _ withdrawn settled' => exact ⟨_, settled', clean.withdrawn withdrawn⟩
    | missed _ settled' => exact ⟨_, settled', clean⟩
  | inadmissible _ _ settled' => exact ⟨_, settled', clean⟩
  | discarded _ _ _ settled' => exact ⟨_, settled', clean.crossed settled o⟩
  | rested _ good residual _ _ crossed outcome =>
    have clean' := clean.crossed settled o
    cases outcome with
    | refused settled' _ _ => exact ⟨_, settled', clean'⟩
    | rested _ _ _ placed settled' =>
      refine ⟨_, settled', ?_⟩
      rcases Ladder.cross_taker (decide (o.side = Side.BUY)) o (ladders (Half.ofSide o.side).opposite) with ⟨r, same⟩
      have taker : (Matcher.crossing ladders o).taker = o.withRemaining r := same
      rcases placed_orders placed (crossed.priced _) (crossed.prices_nodup _) with ⟨l₁, l₂, before, after, -⟩
      have apart := Ladder.crossOrders_apart o (ladders (Half.ofSide o.side).opposite).orders (settled.ranked _)
      rw [Matcher.crossing_flat settled o] at apart
      have valid : isValidPrice o.price = true := by
        simpa [isAdmissible, residual.2, OrderType.LIMIT, OrderType.MARKET, OrderType.CANCEL] using good
      have unmet := apart residual.1
      rw [taker] at residual before after settled' ⊢
      apply clean'.placed
      · intro o' member
        rw [after] at member
        rw [before]
        rcases List.mem_append.mp member with early | late
        · exact .inr (List.mem_append_left _ early)
        · rcases List.mem_cons.mp late with rfl | later
          · exact .inl rfl
          · exact .inr (List.mem_append_right _ later)
      · exact residual.2
      · exact residual.1
      · exact valid
      · intro o' member
        rw [Matcher.crossedLadders] at member
        have held : o' ∈ (Matcher.crossing ladders o).left.orders := by
          rwa [Order.withRemaining_side, Function.update_self] at member
        exact unmet o' held

/-- No bid meets an ask, and all that rests is worth resting. -/
structure Tidy (b : OrderBook) : Prop where
  uncrossed : ∀ bid ask, b.bestBid = some bid → b.bestAsk = some ask → bid.price < ask.price
  resting : ∀ h, ∀ i ∈ (b.maps h).iterate, ∀ n ∈ b.chainOf h i, ∀ o ∈ (b.nodes n).orders,
    o.type = OrderType.LIMIT ∧ 0 < o.remaining ∧ MIN_VALID_PRICE ≤ o.price ∧ o.price ≤ MAX_VALID_PRICE
  levels : ∀ h, ∀ i ∈ (b.maps h).iterate,
    MIN_VALID_PRICE ≤ (b.maps h).key i ∧ (b.maps h).key i ≤ MAX_VALID_PRICE ∧ (b.level h i).price = (b.maps h).key i

theorem Rep.mem_ladder {L : Layout} {h : Half} {i n : Nat} (rep : Rep b cap L) (member : i ∈ (L.tree h).inorder)
    (linked : n ∈ (L.chain h i).map Prod.fst) (held : o ∈ (b.nodes n).orders) : o ∈ (L.ladder b h).orders := by
  rcases List.mem_map.mp linked with ⟨block, inside, rfl⟩
  have queued := rep.stock.queued block.1 block.2 (Layout.mem_blocks.mpr ⟨h, i, member, inside⟩)
  rw [orders_eq queued] at held
  rcases List.mem_map.mp held with ⟨s, slot, rfl⟩
  exact mem_orders.mpr ⟨i, member, (block.1, s), Chain.mem_spots.mpr ⟨block.2, inside, slot⟩, rfl⟩

theorem Settled.level_order (settled : Settled b cap ladders) {h : Half} {i : Nat} (member : i ∈ (b.maps h).iterate) :
    ∃ o ∈ (ladders h).orders, o.price = (b.maps h).key i ∧ (b.level h i).price = (b.maps h).key i := by
  have priced := settled.priced h
  have inhabited := settled.inhabited h
  rcases settled.rep with ⟨L, rep, rfl⟩
  rw [rep.iterate_eq h] at member
  have rung : ((b.maps h).key i, (L.chain h i).queue b.nodes) ∈ L.ladder b h := List.mem_map.mpr ⟨i, member, rfl⟩
  rcases List.exists_mem_of_ne_nil _ (inhabited _ rung) with ⟨o, held⟩
  exact ⟨o, List.mem_flatMap.mpr ⟨_, rung, held⟩, priced _ rung o held, (rep.levels h i member).named⟩

theorem Settled.begin_mem (settled : Settled b cap ladders) {h : Half} (some : (b.maps h).empty = false) :
    (b.maps h).begin_ ∈ (b.maps h).iterate := by
  rcases settled.rep with ⟨L, rep, rfl⟩
  have size : (b.maps h).size_ = (L.tree h).inorder.length := by
    rw [(rep.valid h).count, RBTree.inorder_length]
  rw [rep.iterate_eq h, (rep.valid h).first]
  apply headD_mem
  intro none
  rw [RBPriceIndex.empty, size, none] at some
  cases some

theorem Clean.tidy (clean : Clean ladders) (settled : Settled b cap ladders) : Tidy b := by
  have valid : ∀ {p : PriceTick}, isValidPrice p = true → MIN_VALID_PRICE ≤ p ∧ p ≤ MAX_VALID_PRICE := by
    intro p good
    rw [isValidPrice, Bool.and_eq_true, decide_eq_true_eq, decide_eq_true_eq] at good
    exact good
  refine ⟨?_, ?_, ?_⟩
  · intro bid ask buy sell
    rw [bestBid] at buy
    rw [bestAsk] at sell
    split at buy
    · cases buy
    · split at sell
      · cases sell
      · rename_i bids asks
        rcases settled.level_order (settled.begin_mem (Bool.not_eq_true _ ▸ bids)) with ⟨o, held, price, named⟩
        rcases settled.level_order (settled.begin_mem (Bool.not_eq_true _ ▸ asks)) with ⟨o', held', price', named'⟩
        rw [← Option.some.inj buy, ← Option.some.inj sell, named, named', ← price, ← price']
        exact clean.apart o held o' held'
  · intro h i member n linked o held
    have sound := clean.sound h o
    rcases settled.rep with ⟨L, rep, rfl⟩
    rw [rep.iterate_eq h] at member
    rw [rep.chainOf_eq member] at linked
    rcases sound (rep.mem_ladder member linked held) with ⟨type, some, price⟩
    refine ⟨type, ?_, valid price⟩
    exact UInt32.pos_iff_ne_zero.mpr some
  · intro h i member
    rcases settled.level_order member with ⟨o, held, price, named⟩
    rcases valid (clean.sound h o held).2.2 with ⟨low, high⟩
    rw [price] at low high
    exact ⟨low, high, named⟩

/-- Whatever is submitted, the book is not crossed between the calls and holds no junk. -/
theorem never_crossed {maxNodes idCapacity levelCapacity : Nat} (small : maxNodes * CAPACITY < 2 ^ 32)
    (reach : Transition.Reachable (fun o b => Matcher.submit b o) (create maxNodes idCapacity levelCapacity) b) : Tidy b := by
  have kept : ∃ ladders, Settled b (levelCapacity % 2 ^ 32) ladders ∧ Clean ladders := by
    induction reach with
    | start =>
      refine ⟨_, create_settled small idCapacity levelCapacity, ?_, ?_⟩
      · intro h o member
        cases member
      · intro bid member
        cases member
    | @next _ _ o _ _ taken ih =>
      rcases ih with ⟨ladders, settled, clean⟩
      rcases Matcher.submit_spec settled o with ⟨b', events, result, again, -, outcome⟩
      rw [taken] at again
      cases again
      exact clean.submitted settled outcome
  rcases kept with ⟨ladders, settled, clean⟩
  exact clean.tidy settled

theorem never_crossed_swept : ∃ b,
    Transition.run (fun o b => Matcher.submit b o) [sellTen, { buyFive with price := 101, quantity := 19, remaining := 19 }] (create 2 4 4) = some b ∧
      Tidy b := by
  have returned : (Transition.run (fun o b => Matcher.submit b o) [sellTen, { buyFive with price := 101, quantity := 19, remaining := 19 }]
      (create 2 4 4)).isSome = true := by
    decide +kernel
  rcases Option.isSome_iff_exists.mp returned with ⟨b, reached⟩
  have small : 2 * CAPACITY < 2 ^ 32 := by decide
  exact ⟨b, reached, never_crossed small (Transition.Reachable.start.run reached)⟩

end OrderBook

end Titan
