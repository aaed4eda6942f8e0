import Titan.Book.Feed
import Titan.Book.Uncrossed
import Titan.Data.Waterfall

namespace Titan

open RedBlack Linked PinNode
open RBPriceIndex (NIL)

namespace Ladder

open Matcher (crosses fillQty)
open Waterfall

variable {takerBuy : Bool} {taker maker : Order} {makers : List Order}

def marketable (takerBuy : Bool) (taker : Order) (makers : List Order) : List Order :=
  makers.takeWhile fun maker => crosses taker takerBuy maker.price

def beyond (takerBuy : Bool) (taker : Order) (makers : List Order) : List Order :=
  makers.dropWhile fun maker => crosses taker takerBuy maker.price

def sizes (makers : List Order) : List Nat := makers.map fun maker => maker.remaining.toNat

/-- The part of `want` that each maker gives. -/
def shares (want : Nat) (makers : List Order) : List (Order × Nat) := makers.zip (pour want (sizes makers))

def fills (takerBuy : Bool) (taker : Order) (makers : List Order) : List TradeEvent :=
  ((shares taker.remaining.toNat makers).filter fun share => share.2 ≠ 0).map fun share =>
    Matcher.fillEvent share.1 taker takerBuy (UInt32.ofNat share.2)

def keeps (want : Nat) (makers : List Order) : List Order :=
  ((shares want makers).filter fun share => share.2 ≠ share.1.remaining.toNat).map fun share =>
    share.1.withRemaining (share.1.remaining - UInt32.ofNat share.2)

theorem marketable_append_beyond (takerBuy : Bool) (taker : Order) (makers : List Order) :
    marketable takerBuy taker makers ++ beyond takerBuy taker makers = makers := List.takeWhile_append_dropWhile

theorem marketable_subset (member : maker ∈ marketable takerBuy taker makers) : maker ∈ makers :=
  (List.takeWhile_sublist _).subset member

theorem marketable_cons (meets : crosses taker takerBuy maker.price = true) :
    marketable takerBuy taker (maker :: makers) = maker :: marketable takerBuy taker makers := by
  rw [marketable, List.takeWhile_cons, if_pos meets]
  rfl

theorem beyond_cons (meets : crosses taker takerBuy maker.price = true) :
    beyond takerBuy taker (maker :: makers) = beyond takerBuy taker makers := by
  rw [beyond, List.dropWhile_cons, if_pos meets]
  rfl

theorem marketable_apart (apart : crosses taker takerBuy maker.price = false) :
    marketable takerBuy taker (maker :: makers) = [] := by
  rw [marketable, List.takeWhile_cons, apart]
  rfl

theorem beyond_apart (apart : crosses taker takerBuy maker.price = false) :
    beyond takerBuy taker (maker :: makers) = maker :: makers := by
  rw [beyond, List.dropWhile_cons, apart]
  rfl

theorem shares_cons (want : Nat) (maker : Order) (makers : List Order) :
    shares want (maker :: makers) =
      (maker, min maker.remaining.toNat want) :: shares (want - maker.remaining.toNat) makers := by
  rw [shares, sizes, List.map_cons, pour_cons, List.zip_cons_cons]
  rfl

theorem fills_nothing (done : taker.remaining = 0) (makers : List Order) : fills takerBuy taker makers = [] := by
  rw [fills, done, List.map_eq_nil_iff, List.filter_eq_nil_iff]
  intro share member
  rw [shares, UInt32.toNat_zero, pour_zero] at member
  have none := List.eq_of_mem_replicate (List.of_mem_zip member).2
  simp [none]

theorem keeps_everything (some : ∀ maker ∈ makers, maker.remaining ≠ 0) : keeps 0 makers = makers := by
  induction makers with
  | nil => rfl
  | cons maker rest ih =>
    have here : (0 : Nat) ≠ maker.remaining.toNat := by
      intro none
      exact some maker List.mem_cons_self (UInt32.toNat_inj.mp none.symm)
    have later := ih fun other member => some other (List.mem_cons_of_mem _ member)
    rw [keeps] at later ⊢
    rw [shares_cons, Nat.min_zero, Nat.zero_sub, List.filter_cons_of_pos (by simpa using here), List.map_cons, later]
    congr 1
    show maker.withRemaining (maker.remaining - 0) = maker
    rw [UInt32.sub_zero]
    rfl

theorem fillQty_toNat (taker maker : Order) :
    (fillQty taker maker).toNat = min maker.remaining.toNat taker.remaining.toNat := by
  rw [fillQty]
  split <;> rename_i short <;> rw [UInt32.lt_iff_toNat_lt] at short <;> omega

theorem fillQty_eq (taker maker : Order) :
    fillQty taker maker = UInt32.ofNat (min maker.remaining.toNat taker.remaining.toNat) := by
  rw [← fillQty_toNat, UInt32.ofNat_toNat]

theorem sub_fillQty_toNat (taker maker : Order) :
    (taker.remaining - fillQty taker maker).toNat = taker.remaining.toNat - maker.remaining.toNat := by
  have whole := (sub_fillQty taker maker).2.2
  rw [fillQty_toNat] at whole
  omega

theorem fills_withRemaining_cons (takerBuy : Bool) (taker maker : Order) (makers : List Order) (some : taker.remaining ≠ 0)
    (held : maker.remaining ≠ 0) :
    fills takerBuy taker (maker :: makers) =
      Matcher.fillEvent maker taker takerBuy (fillQty taker maker) ::
        fills takerBuy (taker.withRemaining (taker.remaining - fillQty taker maker)) makers := by
  have share : min maker.remaining.toNat taker.remaining.toNat ≠ 0 := by
    have positive : taker.remaining.toNat ≠ 0 := fun none => some (UInt32.toNat_inj.mp none)
    have positive' : maker.remaining.toNat ≠ 0 := fun none => held (UInt32.toNat_inj.mp none)
    omega
  rw [fills, shares_cons, List.filter_cons_of_pos (by simpa using share), List.map_cons, ← fillQty_eq, fills,
    Order.withRemaining_remaining, sub_fillQty_toNat]
  rfl

theorem keeps_cons_full (full : maker.remaining.toNat ≤ taker.remaining.toNat) (makers : List Order) :
    keeps taker.remaining.toNat (maker :: makers) = keeps (taker.remaining - fillQty taker maker).toNat makers := by
  rw [keeps, shares_cons, Nat.min_eq_left full, List.filter_cons_of_neg (by simp), sub_fillQty_toNat]
  rfl

theorem keeps_cons_part (part : taker.remaining.toNat < maker.remaining.toNat)
    (some : ∀ maker ∈ makers, maker.remaining ≠ 0) :
    keeps taker.remaining.toNat (maker :: makers) = maker.withRemaining (maker.remaining - fillQty taker maker) :: makers := by
  have rest := keeps_everything some
  rw [keeps] at rest ⊢
  rw [shares_cons, Nat.sub_eq_zero_of_le (Nat.le_of_lt part), ← fillQty_toNat, List.filter_cons_of_pos, List.map_cons, rest,
    UInt32.ofNat_toNat]
  rw [fillQty_toNat]
  simp only [decide_eq_true_eq, ne_eq]
  omega

theorem le_iff_full (taker maker : Order) :
    maker.remaining.toNat ≤ taker.remaining.toNat ↔ maker.remaining - fillQty taker maker = 0 := by
  have whole := (sub_fillQty taker maker).2.1
  rw [fillQty_toNat] at whole
  rw [← UInt32.toNat_inj, UInt32.toNat_zero]
  omega

theorem sizes_cons (maker : Order) (makers : List Order) : (sizes (maker :: makers)).sum = maker.remaining.toNat + (sizes makers).sum :=
  List.sum_cons

theorem withRemaining_of_eq {r : Qty} (same : taker.remaining = r) : taker.withRemaining r = taker := by
  rw [← same]
  rfl

theorem crossOrders_pours (takerBuy : Bool) (taker : Order) (makers : List Order)
    (some : ∀ maker ∈ makers, maker.remaining ≠ 0) :
    crossOrders takerBuy taker makers =
      { left := keeps taker.remaining.toNat (marketable takerBuy taker makers) ++ beyond takerBuy taker makers
        taker := taker.withRemaining (UInt32.ofNat (taker.remaining.toNat -
          (sizes (marketable takerBuy taker makers)).sum))
        events := fills takerBuy taker (marketable takerBuy taker makers) } := by
  induction makers generalizing taker with
  | nil =>
    simp only [crossOrders, marketable, beyond, List.takeWhile_nil, List.dropWhile_nil, sizes, List.map_nil, List.sum_nil,
      Nat.sub_zero, UInt32.ofNat_toNat]
    rfl
  | cons maker rest ih =>
    have held := some maker List.mem_cons_self
    have later : ∀ maker ∈ rest, maker.remaining ≠ 0 := fun other member => some other (List.mem_cons_of_mem _ member)
    by_cases meets : crosses taker takerBuy maker.price = true
    · by_cases done : taker.remaining = 0
      · rw [crossOrders, if_pos (.inl done), fills_nothing done, done, UInt32.toNat_zero, Nat.zero_sub,
          keeps_everything fun other member => some other (marketable_subset member), marketable_append_beyond]
        congr 1
        exact (withRemaining_of_eq done).symm
      · have goes : ¬(taker.remaining = 0 ∨ crosses taker takerBuy maker.price = false) := by simp [done, meets]
        rw [crossOrders, if_neg goes, marketable_cons meets, beyond_cons meets,
          fills_withRemaining_cons takerBuy taker maker _ done held]
        by_cases full : maker.remaining - fillQty taker maker = 0
        · have enough := (le_iff_full taker maker).mpr full
          simp only [fill_full takerBuy held full, if_true]
          rw [ih _ later, keeps_cons_full enough]
          simp only [Order.withRemaining_remaining, sub_fillQty_toNat, sizes_cons, Nat.sub_sub]
          rfl
        · have short : taker.remaining.toNat < maker.remaining.toNat := by
            rw [← Nat.not_le, le_iff_full]
            exact full
          have spent : taker.remaining - fillQty taker maker = 0 := (sub_fillQty taker maker).1.resolve_left full
          simp only [fill_part takerBuy held full, List.cons_ne_self, if_false]
          rw [keeps_cons_part short fun other member => later other (marketable_subset member), sizes_cons,
            Nat.sub_eq_zero_of_le (by omega), spent, fills_nothing (Order.withRemaining_remaining ..), List.cons_append,
            List.nil_append, List.cons_append, marketable_append_beyond]
          rfl
    · have apart : crosses taker takerBuy maker.price = false := by simpa using meets
      rw [crossOrders, if_pos (.inr apart), marketable_apart apart, beyond_apart apart]
      simp only [sizes, List.map_nil, List.sum_nil, Nat.sub_zero, UInt32.ofNat_toNat]
      rfl

theorem beyond_apart_of_ranked (taker : Order) (makers : List Order)
    (ranked : PriceTime.Ranked (Half.ofSide taker.side).opposite makers) :
    ∀ maker ∈ beyond (decide (taker.side = Side.BUY)) taker makers,
      crosses taker (decide (taker.side = Side.BUY)) maker.price = false := by
  induction makers with
  | nil =>
    intro maker member
    cases member
  | cons first rest ih =>
    have sorted := List.pairwise_cons.mp ranked
    cases meets : crosses taker (decide (taker.side = Side.BUY)) first.price with
    | true =>
      rw [beyond_cons meets]
      exact ih sorted.2
    | false =>
      rw [beyond_apart meets]
      intro maker member
      rcases List.mem_cons.mp member with rfl | later
      · exact meets
      · exact crosses_worse meets (sorted.1 maker later)

end Ladder

namespace OrderBook

variable {b b' : OrderBook} {cap : Nat} {ladders : Half → Ladder} {h : Half} {o : Order}

/-- The orders of a half, from the best price on, those of one price oldest first. -/
def waiting (b : OrderBook) (h : Half) : List Order := (b.maps h).iterate.flatMap fun i => b.queueAt h ((b.maps h).key i)

theorem Settled.waiting_eq (settled : Settled b cap ladders) (h : Half) : b.waiting h = (ladders h).orders := by
  rcases settled.rep with ⟨L, rep, rfl⟩
  rw [waiting, rep.iterate_eq, Ladder.orders, Layout.ladder, Layout.rungs, List.flatMap_map]
  apply List.flatMap_congr
  intro i member
  exact rep.queueAt_present member

theorem Clean.congr {ladders' : Half → Ladder} (clean : Clean ladders)
    (same : ∀ h, (ladders' h).orders = (ladders h).orders) : Clean ladders' := by
  apply clean.mono
  intro h o member
  rw [same h] at member
  exact ⟨o, member, o.remaining, rfl, id⟩

theorem reachable_clean {maxNodes idCapacity levelCapacity : Nat} (small : maxNodes * CAPACITY < 2 ^ 32)
    (reach : Transition.Reachable (fun o b => Matcher.submit b o) (create maxNodes idCapacity levelCapacity) b) :
    ∃ book ladders, Refines b (levelCapacity % 2 ^ 32) book ladders ∧ Clean ladders := by
  induction reach with
  | start =>
    have empty : Clean fun _ => [] := ⟨fun h o member => (List.not_mem_nil member).elim, fun o member => (List.not_mem_nil member).elim⟩
    exact ⟨_, _, OrderBook.create_refines small idCapacity levelCapacity, empty⟩
  | @next _ _ o _ _ taken ih =>
    rcases ih with ⟨book, ladders, refines, clean⟩
    rcases Matcher.submit_spec refines.settled o with ⟨b', events, result, again, -, outcome⟩
    rw [taken] at again
    cases again
    rcases clean.submitted refines.settled outcome with ⟨ladders', settled, clean'⟩
    rcases Matcher.submit_refines_of refines outcome with ⟨-, -, ladders'', refined⟩
    refine ⟨_, ladders'', refined, clean'.congr ?_⟩
    intro h
    rw [← settled.waiting_eq, refined.settled.waiting_eq]

/-- `o` now stands behind every order whose price its own does not better, and before all others. -/
def Joins (h : Half) (o : Order) (before after : List Order) : Prop :=
  ∃ l₁ l₂, before = l₁ ++ l₂ ∧ after = l₁ ++ o :: l₂ ∧ (∀ other ∈ l₁, PriceTime.better h o.price other.price = false) ∧
    ∀ other ∈ l₂, PriceTime.better h o.price other.price = true

theorem joins_of_placed {ladder ladder' : Ladder} (placed : Ladder.Placed o.price o ladder ladder') (priced : Ladder.Priced ladder)
    (distinct : (ladder.map Prod.fst).Nodup) (ranked : PriceTime.Ranked h ladder'.orders) :
    Joins h o ladder.orders ladder'.orders := by
  rcases placed_orders placed priced distinct with ⟨l₁, l₂, before, after, last⟩
  rw [after, PriceTime.Ranked, List.pairwise_append, List.pairwise_cons] at ranked
  rcases ranked with ⟨-, ⟨behind, -⟩, across⟩
  refine ⟨l₁, l₂, before, after, ?_, ?_⟩
  · intro other member
    exact across other member o List.mem_cons_self
  · intro other member
    exact PriceTime.better_of_ne (last other member) (behind other member)

end OrderBook

namespace Matcher

open OrderBook

variable {b b' : OrderBook} {cap : Nat} {ladders : Half → Ladder} {o : Order} {events : List TradeEvent} {result : MatchResult}

def counterparties (b : OrderBook) (o : Order) : List Order :=
  Ladder.marketable (decide (o.side = Side.BUY)) o (b.waiting (Half.ofSide o.side).opposite)

def bystanders (b : OrderBook) (o : Order) : List Order :=
  Ladder.beyond (decide (o.side = Side.BUY)) o (b.waiting (Half.ofSide o.side).opposite)

/-- What `submit` owes an order: it is poured out over its counterparties in the order of their
    priority, and what is left of it either rests behind its peers or is turned away. -/
structure Allotted (b : OrderBook) (o : Order) (b' : OrderBook) (events : List TradeEvent) (result : MatchResult) : Prop where
  fills : events = Ladder.fills (decide (o.side = Side.BUY)) o (counterparties b o) ++
    if result.rejected then [rejectEvent o] else []
  makers : b'.waiting (Half.ofSide o.side).opposite = Ladder.keeps o.remaining.toNat (counterparties b o) ++ bystanders b o
  unmet : ∀ maker ∈ bystanders b o, crosses o (decide (o.side = Side.BUY)) maker.price = false
  filled : result.filled.toNat = min o.remaining.toNat (Ladder.sizes (counterparties b o)).sum
  residual : result.residual.toNat = o.remaining.toNat - (Ladder.sizes (counterparties b o)).sum
  rests : result.rested = true → Joins (Half.ofSide o.side) (o.withRemaining result.residual) (b.waiting (Half.ofSide o.side))
    (b'.waiting (Half.ofSide o.side))
  passes : result.rested = false → b'.waiting (Half.ofSide o.side) = b.waiting (Half.ofSide o.side)
  settles : result.residual ≠ 0 ∧ o.type = OrderType.LIMIT ↔ result.rested = true ∨ result.rejected = true
  once : result.rested = true → result.rejected = false
  ranked : ∀ h, PriceTime.Ranked h (b'.waiting h)
  trades : result.trades = UInt32.ofNat (Ladder.fills (decide (o.side = Side.BUY)) o (counterparties b o)).length
  canceled : result.canceled = false

theorem crossing_pours (settled : Settled b cap ladders) (clean : Clean ladders) (o : Order) :
    (crossing ladders o).left.orders = Ladder.keeps o.remaining.toNat (counterparties b o) ++ bystanders b o ∧
      (crossing ladders o).taker =
        o.withRemaining (UInt32.ofNat (o.remaining.toNat - (Ladder.sizes (counterparties b o)).sum)) ∧
      (crossing ladders o).events = Ladder.fills (decide (o.side = Side.BUY)) o (counterparties b o) := by
  have flat := crossing_flat settled o
  rw [← settled.waiting_eq, Ladder.crossOrders_pours] at flat
  · rcases Ladder.Sweep.mk.inj flat with ⟨left, taker, events⟩
    exact ⟨left.symm, taker.symm, events.symm⟩
  · intro maker member
    rw [settled.waiting_eq] at member
    exact (clean.sound _ maker member).2.1

theorem residual_toNat (o : Order) (total : Nat) : (UInt32.ofNat (o.remaining.toNat - total)).toNat = o.remaining.toNat - total := by
  rw [UInt32.toNat_ofNat', Nat.mod_eq_of_lt]
  exact Nat.lt_of_le_of_lt (Nat.sub_le _ _) o.remaining.toNat_lt

theorem allotted_of_crossing (settled : Settled b cap ladders) (clean : Clean ladders) {rested rejected : Bool}
    {ladders' : Half → Ladder} (settled' : Settled b' cap ladders')
    (opposite : (ladders' (Half.ofSide o.side).opposite).orders = (crossing ladders o).left.orders)
    (shown : events = (crossing ladders o).events ++ if rejected then [rejectEvent o] else [])
    (rests : rested = true → Joins (Half.ofSide o.side) (crossing ladders o).taker (ladders (Half.ofSide o.side)).orders
      (ladders' (Half.ofSide o.side)).orders)
    (passes : rested = false → (ladders' (Half.ofSide o.side)).orders = (ladders (Half.ofSide o.side)).orders)
    (settles : (crossing ladders o).taker.remaining ≠ 0 ∧ o.type = OrderType.LIMIT ↔ rested = true ∨ rejected = true)
    (once : rested = true → rejected = false) :
    Allotted b o b' events { crossedResult ladders o with rested := rested, rejected := rejected } := by
  rcases crossing_pours settled clean o with ⟨left, taker, fills⟩
  have value := residual_toNat o (Ladder.sizes (counterparties b o)).sum
  have residual : (crossing ladders o).taker.remaining.toNat =
      o.remaining.toNat - (Ladder.sizes (counterparties b o)).sum := by
    rw [taker]
    exact value
  refine ⟨?_, ?_, ?_, ?_, residual, ?_, ?_, settles, once, ?_, ?_, rfl⟩
  · rw [shown, fills]
  · rw [settled'.waiting_eq, opposite, left]
  · have ranked := settled.ranked (Half.ofSide o.side).opposite
    rw [← settled.waiting_eq] at ranked
    exact Ladder.beyond_apart_of_ranked o _ ranked
  · show (o.remaining - (crossing ladders o).taker.remaining).toNat = _
    rw [UInt32.toNat_sub_of_le _ _ (UInt32.le_iff_toNat_le.mpr (by omega)), residual]
    omega
  · intro stays
    rw [settled.waiting_eq, settled'.waiting_eq]
    have joins := rests stays
    rw [taker] at joins
    show Joins _ (o.withRemaining (crossing ladders o).taker.remaining) _ _
    rw [taker]
    exact joins
  · intro leaves
    rw [settled.waiting_eq, settled'.waiting_eq]
    exact passes leaves
  · intro h
    rw [settled'.waiting_eq]
    exact settled'.ranked h
  · rw [← fills]
    rfl

theorem opposite_ne (h : Half) : h.opposite ≠ h := by
  cases h <;> decide

theorem submitted_allotted (settled : Settled b cap ladders) (clean : Clean ladders) (type : o.type ≠ OrderType.CANCEL)
    (good : isAdmissible o = true) (outcome : Submitted b cap ladders o b' events result) : Allotted b o b' events result := by
  have opposite : (crossedLadders ladders o (Half.ofSide o.side).opposite).orders = (crossing ladders o).left.orders := by
    rw [crossedLadders, Function.update_self]
  have own : crossedLadders ladders o (Half.ofSide o.side) = ladders (Half.ofSide o.side) := by
    rw [crossedLadders, Function.update_of_ne (opposite_ne _).symm]
  have taker := (crossing_pours settled clean o).2.1
  cases outcome with
  | canceled kind _ => exact absurd kind type
  | inadmissible _ bad _ =>
    rw [good] at bad
    cases bad
  | discarded _ _ finished settled' =>
    apply allotted_of_crossing settled clean settled' opposite
    · simp
    · simp
    · intro _
      rw [own]
    · simp [finished]
    · simp
  | rested _ _ residual _ _ crossed outcome =>
    cases outcome with
    | rested _ _ _ placed settled' =>
      apply allotted_of_crossing settled clean settled'
      · rw [taker, Order.withRemaining_side, Function.update_of_ne (opposite_ne _), opposite]
      · simp
      · intro _
        have ranked := settled'.ranked (Half.ofSide o.side)
        rw [taker, Order.withRemaining_side] at placed ranked ⊢
        rw [Function.update_self] at ranked ⊢
        have joins := joins_of_placed placed (crossed.priced _) (crossed.prices_nodup _) ranked
        rw [own] at joins
        exact joins
      · simp
      · simp [residual]
      · simp
    | refused settled' _ _ =>
      apply allotted_of_crossing settled clean settled' opposite
      · rw [taker]
        rfl
      · simp
      · intro _
        rw [own]
      · simp [residual]
      · simp

theorem allotted_of_reachable {maxNodes idCapacity levelCapacity : Nat} (small : maxNodes * CAPACITY < 2 ^ 32)
    (reach : Transition.Reachable (fun o b => Matcher.submit b o) (create maxNodes idCapacity levelCapacity) b) (o : Order)
    (type : o.type ≠ OrderType.CANCEL) (good : isAdmissible o = true) :
    ∃ b' events result, submit b o = some (b', events, result) ∧ Allotted b o b' events result := by
  rcases reachable_clean small reach with ⟨book, ladders, refines, clean⟩
  rcases submit_spec refines.settled o with ⟨b', events, result, call, -, outcome⟩
  exact ⟨b', events, result, call, submitted_allotted refines.settled clean type good outcome⟩

def threeOffers : List Order :=
  [{ id := 1, seq := 0, price := 101, quantity := 5, remaining := 5, side := 1, type := 0 },
    { id := 2, seq := 1, price := 100, quantity := 3, remaining := 3, side := 1, type := 0 },
    { id := 3, seq := 2, price := 100, quantity := 4, remaining := 4, side := 1, type := 0 }]

def orderFour (type : OrderType) (price : PriceTick) : Order :=
  { id := 4, seq := 3, price := price, quantity := 9, remaining := 9, side := 0, type := type }

end Matcher

end Titan
