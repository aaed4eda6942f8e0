import Titan.Book.Admission
import Titan.Book.Refinement

namespace Titan

open RedBlack Linked PinNode

namespace OrderBook

variable {b b' : OrderBook} {cap : Nat} {L : Layout} {ladders ladders' : Half → Ladder}

theorem ladder_orders (L : Layout) (b : OrderBook) (h : Half) : (L.ladder b h).orders = (L.half h).queue b.nodes := by
  rw [Ladder.orders, Layout.ladder, Layout.rungs, List.flatMap_map, Layout.half, Chain.queue, Chain.spots,
    List.flatMap_assoc, List.map_flatMap]
  rfl

theorem rung_length_le {ladder : Ladder} {rung : PriceTick × List Order} (member : rung ∈ ladder) :
    rung.2.length ≤ ladder.orders.length := by
  rcases List.append_of_mem member with ⟨l₁, l₂, split⟩
  rw [split, Ladder.orders, List.flatMap_append, List.flatMap_cons, List.length_append, List.length_append]
  omega

theorem Settled.count (settled : Settled b cap ladders) :
    b.liveCount.toNat = (ladders .bids).orders.length + (ladders .asks).orders.length := by
  rcases settled.rep with ⟨L, rep, rfl⟩
  have short := rep.stock.spots_length
  rw [rep.stock.count, UInt64.toNat_ofNat', Nat.mod_eq_of_lt (by omega), ladder_orders, ladder_orders, Chain.queue_length,
    Chain.queue_length, Layout.blocks, Chain.spots_append, List.length_append]

end OrderBook

namespace Matcher

open OrderBook

variable {b b' : OrderBook} {cap : Nat} {ladders : Half → Ladder} {o : Order}

def meetsBest (b : OrderBook) (o : Order) : Bool :=
  let opp := (Half.ofSide o.side).opposite
  !(b.maps opp).empty && crosses o (decide (o.side = Side.BUY)) (b.level opp (b.maps opp).begin_).price

/-- One rejection and nothing else comes of the order. -/
def RejectsUntouched (b : OrderBook) (o : Order) : Prop :=
  ∃ b' result, submit b o = some (b', [rejectEvent o], result) ∧ Untouched b b'

theorem crossLoop_apart {m : Matcher} {opp : Half} {takerBuy : Bool} (fuel : Nat)
    (apart : (!(m.book.maps opp).empty && crosses m.taker takerBuy (m.book.level opp (m.book.maps opp).begin_).price) = false) :
    crossLoop opp takerBuy (fuel + 1) m = some m := by
  rw [crossLoop]
  split
  · rename_i goes
    rw [goes.2, Bool.not_false, Bool.true_and] at apart
    simp only [apart, if_true]
  · rfl

theorem crossOpposite_apart (apart : meetsBest b o = false) :
    ({ book := b, taker := o } : Matcher).crossOpposite = some { book := b, taker := o } := by
  rw [meetsBest] at apart
  rw [crossOpposite]
  split
  · split
    · rename_i buy
      rw [Half.ofSide, if_pos buy, decide_eq_true buy] at apart
      exact crossLoop_apart _ apart
    · rename_i sell
      rw [Half.ofSide, if_neg sell, decide_eq_false sell] at apart
      exact crossLoop_apart _ apart
  · rfl

theorem add_unusable (unusable : b.slabSize ≤ o.id.toNat ∨ (b.locators o.id.toNat).node ≠ INVALID_INDEX) :
    b.add o = some (b, false) := by
  rw [OrderBook.add]
  split
  · rfl
  · rename_i within
    rw [if_pos (unusable.resolve_left within)]

theorem submit_apart (limit : o.type = OrderType.LIMIT) (good : isAdmissible o = true) (some : o.remaining ≠ 0)
    (unusable : b.slabSize ≤ o.id.toNat ∨ (b.locators o.id.toNat).node ≠ INVALID_INDEX) (apart : meetsBest b o = false) :
    submit b o = Option.some (b, [rejectEvent o], { residual := o.remaining, rejected := true }) := by
  have type : o.type ≠ OrderType.CANCEL := limit_not_cancel limit
  have bad : ¬isAdmissible o = false := by simp [good]
  simp only [submit, if_neg type, if_neg bad, crossOpposite_apart apart, Option.bind_eq_bind, Option.bind_some,
    restResidual, if_pos (And.intro some limit), add_unusable unusable]
  simp [emitReject]

theorem meetsBest_first (settled : Settled b cap ladders) (meets : meetsBest b o = true) :
    ∃ maker rest, (ladders (Half.ofSide o.side).opposite).orders = maker :: rest ∧
      crosses o (decide (o.side = Side.BUY)) maker.price = true := by
  have inhabited := settled.inhabited (Half.ofSide o.side).opposite
  have priced := settled.priced (Half.ofSide o.side).opposite
  rw [meetsBest, Bool.and_eq_true, Bool.not_eq_true'] at meets
  rcases settled.rep with ⟨L, rep, rfl⟩
  generalize (Half.ofSide o.side).opposite = opp at meets inhabited priced
  have size : (b.maps opp).size_ = (L.tree opp).inorder.length := by
    rw [(rep.valid opp).count, RBTree.inorder_length]
  cases form : (L.tree opp).inorder with
  | nil =>
    rw [RBPriceIndex.empty, size, form] at meets
    cases meets.1
  | cons i later =>
    have first : (b.maps opp).begin_ = i := by
      rw [(rep.valid opp).first, form]
      rfl
    have member : i ∈ (L.tree opp).inorder := by
      rw [form]
      exact List.mem_cons_self
    have ladder : L.ladder b opp = ((b.maps opp).key i, (L.chain opp i).queue b.nodes) :: L.rungs b opp later := by
      rw [Layout.ladder, form]
      rfl
    have top : ((b.maps opp).key i, (L.chain opp i).queue b.nodes) ∈ L.ladder b opp := by
      rw [ladder]
      exact List.mem_cons_self
    rw [first, (rep.levels opp i member).named] at meets
    cases queue : (L.chain opp i).queue b.nodes with
    | nil => exact absurd queue (inhabited _ top)
    | cons maker rest =>
      refine ⟨maker, rest ++ Ladder.orders (L.rungs b opp later), ?_, ?_⟩
      · rw [ladder, queue]
        rfl
      · rw [priced _ top maker (by rw [queue]; exact List.mem_cons_self)]
        exact meets.2

theorem crossing_meets (settled : Settled b cap ladders) (some : o.remaining ≠ 0) (meets : meetsBest b o = true) :
    (crossing ladders o).events ≠ [] ∨ (crossing ladders o).left.orders.length <
      (ladders (Half.ofSide o.side).opposite).orders.length := by
  rcases meetsBest_first settled meets with ⟨maker, rest, orders, crossed⟩
  have outcome := Ladder.crossOrders_meets rest some crossed
  rw [← orders, crossing_flat settled o] at outcome
  rw [orders, List.length_cons]
  rcases outcome with fills | fewer
  · exact .inl fills
  · exact .inr (Nat.lt_succ_of_le fewer)

theorem crossing_status (settled : Settled b cap ladders) (o : Order) :
    ∀ event ∈ (crossing ladders o).events, event.status = TRADE_STATUS_FILL := by
  have fills := Ladder.crossOrders_status (decide (o.side = Side.BUY)) o (ladders (Half.ofSide o.side).opposite).orders
  rw [crossing_flat settled o] at fills
  exact fills

theorem crossedLadders_count (settled : Settled b cap ladders)
    (after : Settled b' cap (crossedLadders ladders o)) :
    b'.liveCount.toNat + (ladders (Half.ofSide o.side).opposite).orders.length =
      b.liveCount.toNat + (crossing ladders o).left.orders.length := by
  rw [settled.count, after.count, crossedLadders]
  cases (Half.ofSide o.side).opposite with
  | bids =>
    rw [Function.update_self, Function.update_of_ne (by decide)]
    omega
  | asks =>
    rw [Function.update_self, Function.update_of_ne (by decide)]
    omega

theorem not_rejectsUntouched (settled : Settled b cap ladders) (some : o.remaining ≠ 0) (limit : o.type = OrderType.LIMIT)
    (good : isAdmissible o = true) (meets : meetsBest b o = true) : ¬RejectsUntouched b o := by
  intro rejects
  rcases rejects with ⟨b₁, result₁, call, untouched⟩
  rcases submit_spec settled o with ⟨b', events, result, again, -, outcome⟩
  rw [call] at again
  cases again
  have fills := crossing_status settled o
  have other : ∀ event ∈ (crossing ladders o).events, event ∉ [rejectEvent o] := by
    intro event member same
    have fill := fills event member
    rw [List.mem_singleton.mp same] at fill
    cases fill
  generalize shown : [rejectEvent o] = events at outcome
  cases outcome with
  | canceled type => exact absurd (limit.symm.trans type) (by decide)
  | inadmissible _ bad => exact absurd (good.symm.trans bad) (by decide)
  | discarded _ _ _ _ =>
    apply other (rejectEvent o)
    · rw [← shown]
      exact List.mem_cons_self
    · exact List.mem_cons_self
  | rested _ _ _ _ _ _ outcome =>
    rcases crossing_meets settled some meets with traded | fewer
    · rcases List.exists_mem_of_ne_nil _ traded with ⟨event, member⟩
      apply other event member
      rw [shown]
      exact List.mem_append_left _ member
    · cases outcome with
      | rested _ _ _ _ _ =>
        rw [if_pos rfl, List.append_nil] at shown
        apply other (rejectEvent o)
        · rw [← shown]
          exact List.mem_cons_self
        · exact List.mem_cons_self
      | refused settled' _ _ =>
        have count := crossedLadders_count settled settled'
        rw [untouched.liveCount] at count
        omega

/-- A limit order with an id that is in use or out of range is turned away without a
    trade exactly when no price of the other half meets it. -/
theorem rejects_untouched_iff {maxNodes idCapacity levelCapacity : Nat} (small : maxNodes * CAPACITY < 2 ^ 32)
    (reach : Transition.Reachable OrderBook.step (create maxNodes idCapacity levelCapacity) b)
    (limit : o.type = OrderType.LIMIT) (good : isAdmissible o = true) (some : o.remaining ≠ 0)
    (unusable : b.slabSize ≤ o.id.toNat ∨ (b.locators o.id.toNat).node ≠ INVALID_INDEX) :
    RejectsUntouched b o ↔ meetsBest b o = false := by
  rcases reachable_settled small reach with ⟨ladders, settled, -⟩
  constructor
  · intro rejects
    cases meets : meetsBest b o with
    | false => rfl
    | true => exact absurd rejects (not_rejectsUntouched settled some limit good meets)
  · intro apart
    exact ⟨b, _, submit_apart limit good some unusable apart, Untouched.refl b⟩

def twoSided : List Call :=
  [.add sellTen, .add { id := 2, seq := 1, price := 90, quantity := 10, remaining := 10, side := 0, type := 0 }]

def buyAgain (price : PriceTick) : Order := { id := 2, seq := 2, price := price, quantity := 5, remaining := 5, side := 0, type := 0 }

theorem rejects_untouched_iff_apart : ∃ b, Transition.run OrderBook.step twoSided (create 2 4 4) = some b ∧
    RejectsUntouched b (buyAgain 95) := by
  have facts : (Transition.run OrderBook.step twoSided (create 2 4 4)).map (fun b =>
      (decide ((b.locators 2).node ≠ INVALID_INDEX), meetsBest b (buyAgain 95))) = some (true, false) := by
    decide +kernel
  rcases Option.map_eq_some_iff.mp facts with ⟨b, reached, values⟩
  rw [Prod.mk.injEq, decide_eq_true_eq] at values
  have small : 2 * CAPACITY < 2 ^ 32 := by decide
  have apart := rejects_untouched_iff (o := buyAgain 95) small (Transition.Reachable.start.run reached) (by decide) (by decide)
    (by decide) (.inr values.1)
  exact ⟨b, reached, apart.mpr values.2⟩

/-- A buy order at the best offer trades, although its id is in use. -/
theorem duplicate_id_trades : ∃ b, Transition.run OrderBook.step twoSided (create 2 4 4) = some b ∧
    (b.locators 2).node ≠ INVALID_INDEX ∧
    ¬RejectsUntouched b (buyAgain 100) := by
  have facts : (Transition.run OrderBook.step twoSided (create 2 4 4)).map (fun b =>
      (decide ((b.locators 2).node ≠ INVALID_INDEX),
        (submit b (buyAgain 100)).map fun answer => answer.2.1)) =
      some (true, some [{ takerId := 2, makerId := 1, price := 100, feedSeq := 2, quantity := 5, takerSide := 0, status := 0 }]) := by
    decide +kernel
  rcases Option.map_eq_some_iff.mp facts with ⟨b, reached, values⟩
  rw [Prod.mk.injEq, decide_eq_true_eq] at values
  refine ⟨b, reached, values.1, ?_⟩
  intro rejects
  rcases rejects with ⟨b', result, call, -⟩
  rw [call] at values
  cases values.2

end Matcher

end Titan
