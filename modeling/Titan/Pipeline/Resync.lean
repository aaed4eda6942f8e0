import Titan.Pipeline.MatcherLoop

namespace Titan

open PinNode OrderBook Decoder SnapshotBuffer

/-- What a client knows of a book: the total and the number of orders at each price. -/
abbrev Depth := Half → PriceTick → Nat × Nat

namespace Depth

/-- A fill takes an order with it, unless it is alone at its price and there is more of it. -/
def takeFill (qty : Nat) (level : Nat × Nat) : Nat × Nat :=
  if level.2 = 1 ∧ qty < level.1 then (level.1 - qty, 1) else (level.1 - qty, level.2 - 1)

def apply (d : Depth) (event : TradeEvent) : Depth :=
  if event.status = TRADE_STATUS_FILL then
    let h := (Half.ofSide event.takerSide).opposite
    Function.update d h (Function.update (d h) event.price (takeFill event.quantity.toNat (d h event.price)))
  else d

def ofOrders (orders : List Order) (price : PriceTick) : Nat × Nat :=
  (quantity (orders.filter fun o => decide (o.price = price)), (orders.filter fun o => decide (o.price = price)).length)

theorem ofOrders_cons_self (o : Order) (rest : List Order) :
    ofOrders (o :: rest) o.price = (o.remaining.toNat + (ofOrders rest o.price).1, (ofOrders rest o.price).2 + 1) := by
  rw [ofOrders, List.filter_cons_of_pos (by simp), quantity_cons, List.length_cons]
  rfl

theorem ofOrders_cons_of_ne {o : Order} {price : PriceTick} (apart : o.price ≠ price) (rest : List Order) :
    ofOrders (o :: rest) price = ofOrders rest price := by
  rw [ofOrders, List.filter_cons_of_neg (by simpa using apart)]
  rfl

theorem ofOrders_empty {orders : List Order} {price : PriceTick} (none : (ofOrders orders price).2 = 0) :
    (ofOrders orders price).1 = 0 := by
  rw [ofOrders, List.length_eq_zero_iff] at none
  rw [ofOrders, none]
  rfl

theorem ofOrders_absent {orders : List Order} {price : PriceTick} (absent : (orders.any fun o => decide (o.price = price)) = false) :
    ofOrders orders price = (0, 0) := by
  have none : orders.filter (fun o => decide (o.price = price)) = [] := by
    apply List.filter_eq_nil_iff.mpr
    intro o member same
    exact List.any_eq_false.mp absent o member same
  rw [ofOrders, none]
  rfl

theorem ofOrders_fill_whole (maker : Order) (rest : List Order) :
    Function.update (ofOrders (maker :: rest)) maker.price
      (takeFill maker.remaining.toNat (ofOrders (maker :: rest) maker.price)) = ofOrders rest := by
  funext price
  by_cases here : price = maker.price
  · subst here
    rw [Function.update_self, ofOrders_cons_self, takeFill]
    have alone : ¬((ofOrders rest maker.price).2 + 1 = 1 ∧
        maker.remaining.toNat < maker.remaining.toNat + (ofOrders rest maker.price).1) := by
      intro both
      have zero := ofOrders_empty (Nat.succ.inj both.1)
      omega
    rw [if_neg alone, Nat.add_sub_cancel_left, Nat.add_sub_cancel]
  · rw [Function.update_of_ne here, ofOrders_cons_of_ne (Ne.symm here)]

theorem ofOrders_fill_part {maker : Order} {qty : Qty} {rest : List Order} (part : qty < maker.remaining)
    (alone : (rest.any fun o => decide (o.price = maker.price)) = false) :
    Function.update (ofOrders (maker :: rest)) maker.price
      (takeFill qty.toNat (ofOrders (maker :: rest) maker.price)) =
        ofOrders (maker.withRemaining (maker.remaining - qty) :: rest) := by
  have less : qty.toNat < maker.remaining.toNat := UInt32.lt_iff_toNat_lt.mp part
  have same : (maker.withRemaining (maker.remaining - qty)).price = maker.price := rfl
  funext price
  by_cases here : price = maker.price
  · subst here
    rw [Function.update_self, ofOrders_cons_self, ← same, ofOrders_cons_self, same, ofOrders_absent alone, takeFill,
      if_pos ⟨rfl, by omega⟩, Order.withRemaining_remaining, UInt32.toNat_sub_of_le _ _ (UInt32.le_of_lt part)]
    rfl
  · have apart : (maker.withRemaining (maker.remaining - qty)).price ≠ price := Ne.symm here
    rw [Function.update_of_ne here, ofOrders_cons_of_ne (Ne.symm here), ofOrders_cons_of_ne apart]

end Depth

namespace Matcher

open Depth

/-- Filled in this order, the taker ends inside a maker with others behind it at its price. -/
def stopsInside (taker : Order) : List Order → Bool
  | [] => false
  | maker :: rest =>
    if taker.remaining = 0 ∨ crosses taker (decide (taker.side = Side.BUY)) maker.price = false then false
    else if maker.remaining ≤ taker.remaining then
      stopsInside (taker.withRemaining (taker.remaining - maker.remaining)) rest
    else rest.any fun o => decide (o.price = maker.price)

theorem fill_whole {taker maker : Order} (whole : maker.remaining ≤ taker.remaining) : fillQty taker maker = maker.remaining := by
  rw [fillQty, if_neg (UInt32.not_lt.mpr whole)]

theorem fill_inside {taker maker : Order} (inside : ¬maker.remaining ≤ taker.remaining) :
    fillQty taker maker = taker.remaining ∧ maker.remaining - taker.remaining ≠ 0 := by
  have less := UInt32.not_le.mp inside
  refine ⟨by rw [fillQty, if_pos less], ?_⟩
  intro none
  rw [UInt32.sub_eq_iff_eq_add, UInt32.zero_add] at none
  rw [none] at less
  exact UInt32.lt_irrefl _ less

theorem fill_half (taker maker : Order) (qty : Qty) :
    (Half.ofSide (fillEvent maker taker (decide (taker.side = Side.BUY)) qty).takerSide).opposite =
      (Half.ofSide taker.side).opposite := by
  have other : Side.SELL ≠ Side.BUY := by decide
  rw [fillEvent]
  by_cases buy : taker.side = Side.BUY
  · simp [buy, Half.ofSide]
  · simp [buy, Half.ofSide, other]

theorem apply_fill (d : Depth) (maker taker : Order) (qty : Qty) :
    apply d (fillEvent maker taker (decide (taker.side = Side.BUY)) qty) =
      Function.update d (Half.ofSide taker.side).opposite (Function.update (d (Half.ofSide taker.side).opposite) maker.price
        (takeFill qty.toNat (d (Half.ofSide taker.side).opposite maker.price))) := by
  simp only [apply, fill_half]
  exact if_pos rfl

/-- From the fills alone the client finds what is left of the makers. -/
theorem crossOrders_depth (makers : List Order) (taker : Order) (d : Depth) (alive : ∀ maker ∈ makers, maker.remaining ≠ 0)
    (whole : stopsInside taker makers = false) (known : d (Half.ofSide taker.side).opposite = ofOrders makers) :
    (Ladder.crossOrders (decide (taker.side = Side.BUY)) taker makers).events.foldl apply d =
      Function.update d (Half.ofSide taker.side).opposite
        (ofOrders (Ladder.crossOrders (decide (taker.side = Side.BUY)) taker makers).left) := by
  induction makers generalizing taker d with
  | nil =>
    rw [Ladder.crossOrders, ← known, Function.update_eq_self]
    rfl
  | cons maker rest ih =>
    rw [stopsInside] at whole
    rw [Ladder.crossOrders]
    by_cases stops : taker.remaining = 0 ∨ crosses taker (decide (taker.side = Side.BUY)) maker.price = false
    · rw [if_pos stops]
      dsimp only
      rw [← known, Function.update_eq_self]
      rfl
    rw [if_neg stops] at whole ⊢
    have some := alive maker List.mem_cons_self
    by_cases full : maker.remaining ≤ taker.remaining
    · rw [if_pos full] at whole
      have qty := fill_whole full
      have gone : maker.remaining - fillQty taker maker = 0 := by rw [qty, UInt32.sub_self]
      rw [Ladder.fill_full (decide (taker.side = Side.BUY)) some gone, qty]
      simp only [if_true, List.singleton_append, List.foldl_cons]
      have next : apply d (fillEvent (maker.withRemaining (maker.remaining - maker.remaining))
          (taker.withRemaining (taker.remaining - maker.remaining)) (decide (taker.side = Side.BUY)) maker.remaining) =
          Function.update d (Half.ofSide taker.side).opposite (ofOrders rest) := by
        refine (apply_fill d (maker.withRemaining _) (taker.withRemaining _) maker.remaining).trans ?_
        show Function.update d (Half.ofSide taker.side).opposite (Function.update (d (Half.ofSide taker.side).opposite)
          maker.price (takeFill maker.remaining.toNat (d (Half.ofSide taker.side).opposite maker.price))) = _
        rw [known, ofOrders_fill_whole]
      rw [next]
      have later := ih (taker.withRemaining (taker.remaining - maker.remaining))
        (Function.update d (Half.ofSide taker.side).opposite (ofOrders rest))
        (fun m member => alive m (List.mem_cons_of_mem _ member)) whole (Function.update_self ..)
      rw [Order.withRemaining_side, Function.update_idem] at later
      exact later
    · rw [if_neg full] at whole
      rcases fill_inside full with ⟨qty, left⟩
      have more : maker.remaining - fillQty taker maker ≠ 0 := by rwa [qty]
      rw [Ladder.fill_part (decide (taker.side = Side.BUY)) some more, qty]
      simp only [List.cons_ne_nil, if_false, List.foldl_cons, List.foldl_nil, List.singleton_append]
      refine (apply_fill d (maker.withRemaining _) (taker.withRemaining _) taker.remaining).trans ?_
      show Function.update d (Half.ofSide taker.side).opposite (Function.update (d (Half.ofSide taker.side).opposite)
        maker.price (takeFill taker.remaining.toNat (d (Half.ofSide taker.side).opposite maker.price))) = _
      rw [known, ofOrders_fill_part (UInt32.not_le.mp full) whole]

def met (taker : Order) (makers : List Order) : List Order :=
  makers.takeWhile fun maker => crosses taker (decide (taker.side = Side.BUY)) maker.price

theorem met_cons_of_pos {taker maker : Order} (rest : List Order)
    (crossed : crosses taker (decide (taker.side = Side.BUY)) maker.price = true) :
    met taker (maker :: rest) = maker :: met taker rest := by
  simp only [met, List.takeWhile_cons, crossed, if_true]

theorem met_cons_of_neg {taker maker : Order} (rest : List Order)
    (unmet : crosses taker (decide (taker.side = Side.BUY)) maker.price = false) : met taker (maker :: rest) = [] := by
  simp only [met, List.takeWhile_cons, unmet, Bool.false_eq_true, if_false]

theorem crossOrders_residual (makers : List Order) (taker : Order) :
    (Ladder.crossOrders (decide (taker.side = Side.BUY)) taker makers).taker.remaining.toNat =
      taker.remaining.toNat - quantity (met taker makers) := by
  induction makers generalizing taker with
  | nil => rfl
  | cons maker rest ih =>
    rw [Ladder.crossOrders]
    by_cases crossed : crosses taker (decide (taker.side = Side.BUY)) maker.price = true
    · rw [met_cons_of_pos rest crossed, quantity_cons]
      by_cases none : taker.remaining = 0
      · rw [if_pos (.inl none), none]
        exact (Nat.zero_sub _).symm
      · rw [if_neg (by simp [none, crossed])]
        by_cases empty : maker.remaining = 0
        · rw [Ladder.fill, if_pos empty, empty]
          simp only [if_true, UInt32.toNat_zero, Nat.zero_add]
          exact ih taker
        by_cases full : maker.remaining ≤ taker.remaining
        · have gone : maker.remaining - fillQty taker maker = 0 := by rw [fill_whole full, UInt32.sub_self]
          rw [Ladder.fill_full _ empty gone, fill_whole full]
          simp only [if_true]
          rw [← Nat.sub_sub, ← UInt32.toNat_sub_of_le _ _ full]
          exact ih (taker.withRemaining (taker.remaining - maker.remaining))
        · rcases fill_inside full with ⟨qty, left⟩
          have more : maker.remaining - fillQty taker maker ≠ 0 := by rwa [qty]
          have less : taker.remaining.toNat < maker.remaining.toNat := UInt32.lt_iff_toNat_lt.mp (UInt32.not_le.mp full)
          rw [Ladder.fill_part _ empty more, qty]
          simp only [List.cons_ne_nil, if_false, Order.withRemaining_remaining, UInt32.sub_self, UInt32.toNat_zero]
          omega
    · have unmet : crosses taker (decide (taker.side = Side.BUY)) maker.price = false := by simpa using crossed
      rw [met_cons_of_neg rest unmet, quantity_nil, Nat.sub_zero, if_pos (.inr unmet)]

theorem crossOrders_unmet {makers : List Order} {maker : Order} (taker : Order) (member : maker ∈ makers)
    (unmet : crosses taker (decide (taker.side = Side.BUY)) maker.price = false) :
    maker ∈ (Ladder.crossOrders (decide (taker.side = Side.BUY)) taker makers).left := by
  induction makers generalizing taker with
  | nil => cases member
  | cons first rest ih =>
    rw [Ladder.crossOrders]
    split
    · exact member
    · rename_i goes
      have inside : maker ∈ rest := by
        rcases List.mem_cons.mp member with rfl | later
        · exact absurd (.inr unmet) goes
        · exact later
      by_cases gone : (Ladder.fill (decide (taker.side = Side.BUY)) taker first).left = []
      · simp only [gone, if_true]
        rcases Ladder.fill_taker (decide (taker.side = Side.BUY)) taker first with ⟨r, filled⟩
        rw [filled]
        exact ih (taker.withRemaining r) inside unmet
      · simp only [gone, if_false]
        exact List.mem_append_right _ inside

end Matcher

namespace OrderBook

variable {b b' : OrderBook} {cap : Nat} {ladders : Half → Ladder} {h : Half}

def makers (b : OrderBook) (h : Half) : List Order := (b.maps h).iterate.flatMap fun i => b.queueAt h ((b.maps h).key i)

def depth (b : OrderBook) : Depth := fun h price => (quantity (b.queueAt h price), (b.queueAt h price).length)

theorem Settled.makers_eq (settled : Settled b cap ladders) (h : Half) : b.makers h = (ladders h).orders := by
  have queue : ∀ rung ∈ ladders h, b.queueAt h rung.1 = rung.2 := fun rung member => settled.rung_queue member
  rcases settled.rep with ⟨L, rep, rfl⟩
  rw [makers, rep.iterate_eq, Ladder.orders, Layout.ladder, Layout.rungs, List.flatMap_map]
  apply List.flatMap_congr
  intro i member
  exact queue _ (List.mem_map.mpr ⟨i, member, rfl⟩)

theorem Settled.depth_eq (settled : Settled b cap ladders) : b.depth = fun h => Depth.ofOrders (ladders h).orders := by
  funext h price
  rw [depth, settled.queueAt_eq]
  rfl

def levelAt (h : Half) (d : PriceTick → Nat × Nat) (price : PriceTick) : SnapshotLevel where
  price := price
  totalQty := UInt64.ofNat (d price).1
  orderCount := UInt32.ofNat (d price).2
  side := h.snapshotSide

theorem Exact.levels_eq {levels : List SnapshotLevel} (exact₁ : Exact b h levels) :
    levels = (levels.map SnapshotLevel.price).map (levelAt h (b.depth h)) := by
  have each : ∀ l ∈ levels, levelAt h (b.depth h) l.price = l := by
    intro l member
    rcases exact₁.totals l member with ⟨total, count, side⟩
    rw [levelAt, depth, ← total, ← count, ← side, UInt64.ofNat_toNat, UInt32.ofNat_toNat]
  rw [List.map_map]
  exact (List.map_id' levels).symm.trans (List.map_congr_left fun l member => (each l member).symm)

theorem Exact.unique {levels levels' : List SnapshotLevel} (exact₁ : Exact b h levels) (exact₂ : Exact b' h levels')
    (same : b.depth h = b'.depth h) : levels = levels' := by
  have waits : ∀ price, b.queueAt h price ≠ [] ↔ b'.queueAt h price ≠ [] := by
    intro price
    have length := congrArg Prod.snd (congrFun same price)
    simp only [depth] at length
    rw [← List.length_pos_iff, ← List.length_pos_iff, length]
  have sorted : ∀ {c : OrderBook} {l : List SnapshotLevel}, Exact c h l →
      (l.map SnapshotLevel.price).Pairwise fun p q => PriceTime.better h p q = true := by
    intro c l exact_
    exact List.pairwise_map.mpr exact_.sorted
  have apart : ∀ p q, PriceTime.better h p q = true → p ≠ q := by
    intro p q better same
    rw [same, PriceTime.better_self] at better
    cases better
  have prices : levels.map SnapshotLevel.price = levels'.map SnapshotLevel.price := by
    apply List.Perm.eq_of_pairwise _ (sorted exact₁) (sorted exact₂)
    · apply (List.perm_ext_iff_of_nodup ((sorted exact₁).imp (apart _ _)) ((sorted exact₂).imp (apart _ _))).mpr
      intro price
      rw [List.mem_map, List.mem_map, exact₁.prices, exact₂.prices]
      exact waits price
    · intro p q _ _ first second
      rw [PriceTime.better_asymm first] at second
      cases second
  rw [exact₁.levels_eq, exact₂.levels_eq, prices, same]

theorem Exact.depth_eq {levels levels' : List SnapshotLevel} (exact₁ : Exact b h levels) (exact₂ : Exact b' h levels')
    (same : levels.map (fun l => l.row.cells) = levels'.map fun l => l.row.cells) : b.depth h = b'.depth h := by
  have shown : ∀ {c c' : OrderBook} {l l' : List SnapshotLevel}, Exact c h l → Exact c' h l' →
      l.map (fun l => l.row.cells) = l'.map (fun l => l.row.cells) → ∀ price, c.queueAt h price ≠ [] →
      c'.queueAt h price ≠ [] ∧ c.depth h price = c'.depth h price := by
    intro c c' l l' first second equal price waits
    rcases (first.prices price).mpr waits with ⟨level, member, rfl⟩
    have listed : level.row.cells ∈ l'.map fun l => l.row.cells := by
      rw [← equal]
      exact List.mem_map_of_mem member
    rcases List.mem_map.mp listed with ⟨level', member', row⟩
    simp only [SnapshotLevel.row, LevelRow.cells, Prod.mk.injEq] at row
    rcases row with ⟨price, total, count⟩
    have at_ : level'.price = level.price := Int64.toInt_inj.mp price
    refine ⟨(second.prices _).mp ⟨level', member', at_⟩, ?_⟩
    rw [depth, depth, ← (first.totals level member).1, ← (first.totals level member).2.1, ← at_,
      ← (second.totals level' member').1, ← (second.totals level' member').2.1, total, count]
  funext price
  by_cases waits : b.queueAt h price = []
  · have none : b'.queueAt h price = [] := by
      by_contra there
      exact (shown exact₂ exact₁ same.symm price there).1 waits
    rw [depth, depth, waits, none]
  · exact (shown exact₁ exact₂ same price waits).2

end OrderBook

namespace Matcher

open Depth

variable {b b' : OrderBook} {cap : Nat} {ladders : Half → Ladder} {book : PriceTime.Book} {o : Order} {events : List TradeEvent}
  {result : MatchResult}

/-- What is left of the order cannot join the book: its id is too high, an order that it does
    not meet has it, or there is no slot. -/
def Unusable (b : OrderBook) (o : Order) : Prop :=
  b.slabSize ≤ o.id.toNat ∨ roomAfterCross b o = false ∨
    ∃ h, ∃ other ∈ b.makers h, other.id = o.id ∧
      (h = (Half.ofSide o.side).opposite → crosses o (decide (o.side = Side.BUY)) other.price = false)

/-- The events of the order tell everything that it does to the book: it cancels nothing,
    leaves nothing to rest, and does not stop inside a maker with others behind it at its price. -/
inductive Told (b : OrderBook) (o : Order) : Prop
  | missed (type : o.type = OrderType.CANCEL) (dead : (b.locators o.id.toNat).node = INVALID_INDEX)
  | inadmissible (type : o.type ≠ OrderType.CANCEL) (bad : isAdmissible o = false)
  | traded (type : o.type ≠ OrderType.CANCEL) (good : isAdmissible o = true)
      (whole : stopsInside o (b.makers (Half.ofSide o.side).opposite) = false)
      (spent : o.type ≠ OrderType.LIMIT ∨
        o.remaining.toNat ≤ quantity (met o (b.makers (Half.ofSide o.side).opposite)) ∨ Unusable b o)

theorem apply_reject (d : Depth) (o : Order) : apply d (rejectEvent o) = d := by
  have reject : (rejectEvent o).status ≠ TRADE_STATUS_FILL := by
    show TRADE_STATUS_REJECTED ≠ TRADE_STATUS_FILL
    decide
  rw [apply, if_neg reject]

theorem makers_alive (refines : Refines b cap book ladders) (h : Half) : ∀ maker ∈ (ladders h).orders, maker.remaining ≠ 0 := by
  intro maker member
  have listed : Resting.of maker ∈ book.filter fun r => decide (r.side = h ∧ r.price = maker.price) := by
    rw [refines.sim.queues h maker.price]
    exact List.mem_map_of_mem (List.mem_filter.mpr ⟨member, by simp⟩)
  exact refines.sim.alive _ (List.mem_of_mem_filter listed)

theorem crossing_depth (refines : Refines b cap book ladders)
    (whole : stopsInside o (b.makers (Half.ofSide o.side).opposite) = false)
    (settled : Settled b' cap (crossedLadders ladders o)) : (crossing ladders o).events.foldl apply b.depth = b'.depth := by
  rw [refines.settled.makers_eq] at whole
  have known : b.depth (Half.ofSide o.side).opposite = ofOrders (ladders (Half.ofSide o.side).opposite).orders := by
    rw [refines.settled.depth_eq]
  have rebuilt := crossOrders_depth _ o b.depth (makers_alive refines _) whole known
  rw [crossing_flat refines.settled o] at rebuilt
  rw [rebuilt, settled.depth_eq, refines.settled.depth_eq]
  funext h
  by_cases here : h = (Half.ofSide o.side).opposite
  · subst here
    rw [Function.update_self, crossedLadders, Function.update_self]
  · rw [Function.update_of_ne here, crossedLadders, Function.update_of_ne here]

theorem not_unusable {m : Matcher} (refines : Refines b cap book ladders)
    (call : ({ book := b, taker := o } : Matcher).crossOpposite = some m) (size : m.book.slabSize = b.slabSize)
    (outcome : Added m.book cap (crossedLadders ladders o) (crossing ladders o).taker b' true) : ¬Unusable b o := by
  rcases Ladder.cross_taker (decide (o.side = Side.BUY)) o (ladders (Half.ofSide o.side).opposite) with ⟨r, same⟩
  have taker : (crossing ladders o).taker = o.withRemaining r := same
  rw [taker] at outcome
  cases outcome with
  | rested within dead room placed settled =>
    intro unusable
    rcases unusable with high | full | ⟨h, other, member, id, unmet⟩
    · rw [size] at within
      exact Nat.not_lt.mpr high within
    · rw [roomAfterCross, call] at full
      exact absurd (full.symm.trans room) (by decide)
    · apply dead
      rw [refines.settled.makers_eq] at member
      refine ⟨h, other, ?_, id⟩
      by_cases here : h = (Half.ofSide o.side).opposite
      · subst here
        have stays := crossOrders_unmet o member (unmet rfl)
        rw [crossing_flat refines.settled o] at stays
        rw [crossedLadders, Function.update_self]
        exact stays
      · rw [crossedLadders, Function.update_of_ne here]
        exact member

theorem submitted_depth (refines : Refines b cap book ladders) (told : Told b o)
    (outcome : Submitted b cap ladders o b' events result) : events.foldl apply b.depth = b'.depth := by
  cases outcome with
  | canceled type outcome =>
    rcases refines.canceled outcome with ⟨removed, -⟩
    cases told with
    | inadmissible other => exact absurd type other
    | traded other => exact absurd type other
    | missed _ dead =>
      cases outcome with
      | missed _ settled => rw [List.foldl_nil, refines.settled.depth_eq, settled.depth_eq]
      | removed => exact absurd dead ((refines.shows.live o.id).mpr removed.symm)
  | inadmissible type bad settled => rw [List.foldl_cons, List.foldl_nil, apply_reject]
  | discarded type good finished settled =>
    cases told with
    | missed other => exact absurd other type
    | inadmissible _ bad => exact absurd (good.symm.trans bad) (by decide)
    | traded _ _ whole _ => exact crossing_depth refines whole settled
  | @rested m _ rested type good residual call size settled outcome =>
    cases told with
    | missed other => exact absurd other type
    | inadmissible _ bad => exact absurd (good.symm.trans bad) (by decide)
    | traded _ _ whole spent =>
      have some : (crossing ladders o).taker.remaining.toNat ≠ 0 := fun none => residual.1 (UInt32.toNat_inj.mp none)
      have left := crossOrders_residual (ladders (Half.ofSide o.side).opposite).orders o
      rw [crossing_flat refines.settled o] at left
      dsimp only at left
      have short : ¬o.remaining.toNat ≤ quantity (met o (ladders (Half.ofSide o.side).opposite).orders) := by
        omega
      rw [← refines.settled.makers_eq] at short
      have unusable := (spent.resolve_left (not_not.mpr residual.2)).resolve_left short
      cases rested with
      | true => exact absurd unusable (not_unusable refines call size outcome)
      | false =>
        cases outcome with
        | refused settled' _ _ =>
          simp only [Bool.false_eq_true, if_false]
          rw [List.foldl_append, List.foldl_cons, List.foldl_nil, apply_reject]
          exact crossing_depth refines whole settled'

def ToldAll : List Order → OrderBook → Prop
  | [], _ => True
  | o :: rest, b => Told b o ∧ ∀ b' events result, submit b o = some (b', events, result) → ToldAll rest b'

/-- A client that knows the depth of a book and gets the events of orders that are told knows
    the depth after them. -/
theorem submitAll_depth (orders : List Order) (refines : Refines b cap book ladders) (told : ToldAll orders b)
    (run : submitAll orders b = some (b', events)) : events.foldl apply b.depth = b'.depth := by
  induction orders generalizing b book ladders events with
  | nil =>
    cases run
    rfl
  | cons o rest ih =>
    simp only [submitAll, Option.bind_eq_bind, Option.bind_eq_some_iff, Option.some.injEq, Prod.mk.injEq] at run
    rcases run with ⟨⟨b₁, first, result⟩, call, tail, looped, rfl, rfl⟩
    rcases submit_spec refines.settled o with ⟨b₂, events₂, result₂, again, -, outcome⟩
    rw [call] at again
    cases again
    rcases submit_refines_of refines outcome with ⟨-, -, ladders₁, refined⟩
    rw [List.foldl_append, submitted_depth refines told.1 outcome]
    exact ih refined (told.2 _ _ _ call) looped

end Matcher

namespace MatcherLoop

variable {maxLevels : Nat} {s t : Seq} {data : List UInt8} {feed : List TradeEvent}

/-- A run of the matcher thread on orders with the numbers 0, 1, 2, and so on, of which a client
    has the snapshot `data` as of `s` and the events `feed` after `s` and up to `t`. -/
structure View (maxLevels : Nat) (s t : Seq) (data : List UInt8) (feed : List TradeEvent) where
  maxNodes : Nat
  idCapacity : Nat
  levelCapacity : Nat
  every : UInt64
  slot : UInt64 → Option SnapshotBuffer
  orders : List Order
  loop : MatcherLoop
  small : maxNodes * CAPACITY < 2 ^ 32
  numbered : Matcher.Numbered orders
  ran : consumeAll maxLevels every slot orders (create maxNodes idCapacity levelCapacity) = some loop
  published : ∃ buf ∈ loop.snapshots, buf.header.feedSeq = s ∧ datagram maxLevels buf = data
  received : loop.events.filter (fun event => decide (s < event.feedSeq ∧ event.feedSeq ≤ t)) = feed

namespace View

def upTo (v : View maxLevels s t data feed) (seq : Seq) : List Order := v.orders.filter fun o => decide (o.seq ≤ seq)

def between (v : View maxLevels s t data feed) : List Order := v.orders.filter fun o => decide (s < o.seq ∧ o.seq ≤ t)

def bookAt (v : View maxLevels s t data feed) (seq : Seq) : Option OrderBook :=
  (Matcher.submitAll (v.upTo seq) (OrderBook.create v.maxNodes v.idCapacity v.levelCapacity)).map Prod.fst

def Covers (v : View maxLevels s t data feed) : Prop := ∀ b, v.bookAt s = some b → ∀ h, (b.l2 h).length ≤ maxLevels / 2

def Told (v : View maxLevels s t data feed) : Prop := ∀ b, v.bookAt s = some b → Matcher.ToldAll v.between b

end View

theorem filter_split {orders : List Order} (increasing : orders.Pairwise fun o later => o.seq < later.seq) (seq : Seq) :
    orders.filter (fun o => decide (o.seq ≤ seq)) ++ orders.filter (fun o => decide (seq < o.seq)) = orders := by
  induction orders with
  | nil => rfl
  | cons o rest ih =>
    rcases List.pairwise_cons.mp increasing with ⟨first, later⟩
    by_cases low : o.seq ≤ seq
    · rw [List.filter_cons_of_pos (by simpa using low), List.filter_cons_of_neg (by simpa using low), List.cons_append,
        ih later]
    · have high := UInt64.not_le.mp low
      have none : rest.filter (fun o => decide (o.seq ≤ seq)) = [] := by
        apply List.filter_eq_nil_iff.mpr
        intro o' member reached
        exact low (UInt64.le_trans (UInt64.le_of_lt (first o' member)) (of_decide_eq_true reached))
      have all : rest.filter (fun o => decide (seq < o.seq)) = rest := by
        apply List.filter_eq_self.mpr
        intro o' member
        exact decide_eq_true (UInt64.lt_trans high (first o' member))
      rw [List.filter_cons_of_neg (by simpa using high), List.filter_cons_of_pos (by simpa using high), none, all]
      rfl

namespace View

variable {maxLevels : Nat} {s t : Seq} {data : List UInt8} {feed : List TradeEvent}

theorem increasing (v : View maxLevels s t data feed) : v.orders.Pairwise fun o later => o.seq < later.seq :=
  v.numbered.increasing

theorem upTo_append (v : View maxLevels s t data feed) (behind : s ≤ t) : v.upTo s ++ v.between = v.upTo t := by
  have split := filter_split (v.increasing.sublist (List.filter_sublist (p := fun o => decide (o.seq ≤ t)))) s
  rw [List.filter_filter, List.filter_filter] at split
  rw [upTo, between, upTo, ← split]
  congr 1
  · apply List.filter_congr
    intro o _
    rw [← Bool.decide_and, decide_eq_decide]
    exact ⟨fun low => ⟨low, UInt64.le_trans low behind⟩, And.left⟩
  · apply List.filter_congr
    intro o _
    rw [← Bool.decide_and]

theorem upTo_rest (v : View maxLevels s t data feed) : v.upTo t ++ v.orders.filter (fun o => decide (t < o.seq)) = v.orders :=
  filter_split v.increasing t

theorem tracked (v : View maxLevels s t data feed) (fits : maxLevels < 2 ^ 33) :
    Tracked (OrderBook.create v.maxNodes v.idCapacity v.levelCapacity) maxLevels maxLevels v.orders v.loop := by
  have start := OrderBook.create_refines v.small v.idCapacity v.levelCapacity
  have fresh : Tracked (OrderBook.create v.maxNodes v.idCapacity v.levelCapacity) maxLevels maxLevels []
      (create v.maxNodes v.idCapacity v.levelCapacity) := by
    refine ⟨rfl, ?_⟩
    intro buf member
    cases member
  rcases consumeAll_spec fits v.every v.slot v.orders start fresh with ⟨m, looped, tracked⟩
  rw [v.ran] at looped
  cases looped
  exact tracked

theorem bookAt_snapshot (v : View maxLevels s t data feed) (fits : maxLevels < 2 ^ 33) :
    ∃ b events buf, Matcher.submitAll (v.upTo s) (OrderBook.create v.maxNodes v.idCapacity v.levelCapacity) = some (b, events) ∧
      Image maxLevels maxLevels b s buf ∧ datagram maxLevels buf = data := by
  rcases v.published with ⟨buf, member, seq, shown⟩
  rcases (v.tracked fits).snapshots buf member with ⟨earlier, o, later, b, events, split, called, image⟩
  have stamped : s = o.seq := by
    rw [← seq, image.holding.header]
    rfl
  have upto := filter_upto (split ▸ v.increasing)
  rw [← split, ← stamped] at upto
  rw [← stamped] at image
  rw [← upto] at called
  exact ⟨b, events, buf, called, image, shown⟩

theorem filter_events {orders : List Order} {events : List TradeEvent} {p : Seq → Bool} {k : Bool}
    (stamped : ∀ event ∈ events, ∃ o ∈ orders, event.feedSeq = o.seq) (decided : ∀ o ∈ orders, p o.seq = k) :
    events.filter (fun event => p event.feedSeq) = if k then events else [] := by
  have each : ∀ event ∈ events, p event.feedSeq = k := by
    intro event member
    rcases stamped event member with ⟨o, inside, same⟩
    rw [same]
    exact decided o inside
  cases k with
  | true => exact List.filter_eq_self.mpr each
  | false =>
    apply List.filter_eq_nil_iff.mpr
    intro event member
    rw [each event member]
    exact Bool.false_ne_true

theorem between_feed (v : View maxLevels s t data feed) (fits : maxLevels < 2 ^ 33) (behind : s ≤ t) {b : OrderBook}
    {events : List TradeEvent}
    (run : Matcher.submitAll (v.upTo s) (OrderBook.create v.maxNodes v.idCapacity v.levelCapacity) = some (b, events)) :
    ∃ b' book ladders book' ladders', Matcher.submitAll v.between b = some (b', feed) ∧ v.bookAt t = some b' ∧
      Refines b (v.levelCapacity % 2 ^ 32) book ladders ∧ Refines b' (v.levelCapacity % 2 ^ 32) book' ladders' := by
  have start := OrderBook.create_refines v.small v.idCapacity v.levelCapacity
  rcases Matcher.submitAll_spec (v.upTo s) start with ⟨b₀, events₀, book, ladders, again, -, refined, stamped⟩
  rw [run] at again
  cases again
  rcases Matcher.submitAll_spec v.between refined with ⟨b', middle, book', ladders', later, -, refined', stamped'⟩
  rcases Matcher.submitAll_spec (v.orders.filter fun o => decide (t < o.seq)) refined' with
    ⟨b₂, rest, -, -, last, -, -, stamped₂⟩
  have upto := Matcher.submitAll_append (v.upTo s) v.between run later
  rw [v.upTo_append behind] at upto
  have whole := Matcher.submitAll_append (v.upTo t) _ upto last
  rw [v.upTo_rest, (v.tracked fits).run] at whole
  have parts : v.loop.events = events ++ middle ++ rest := (Prod.mk.inj (Option.some.inj whole)).2
  have received := v.received
  -- only the middle part of the events has numbers in the range
  have before := filter_events (p := fun seq => decide (s < seq ∧ seq ≤ t)) (k := false) stamped (by
    intro o member
    have low := of_decide_eq_true (List.mem_filter.mp member).2
    exact decide_eq_false fun both => UInt64.not_le.mpr both.1 low)
  have inside := filter_events (p := fun seq => decide (s < seq ∧ seq ≤ t)) (k := true) stamped' (by
    intro o member
    exact (List.mem_filter.mp member).2)
  have after := filter_events (p := fun seq => decide (s < seq ∧ seq ≤ t)) (k := false) stamped₂ (by
    intro o member
    have high := of_decide_eq_true (List.mem_filter.mp member).2
    exact decide_eq_false fun both => UInt64.not_le.mpr high both.2)
  rw [parts, List.filter_append, List.filter_append, before, inside, after] at received
  simp only [Bool.false_eq_true, if_false, if_true, List.nil_append, List.append_nil] at received
  rw [received] at later
  refine ⟨b', book, ladders, book', ladders', later, ?_, refined, refined'⟩
  rw [bookAt, upto]
  rfl

end View

theorem Image.depth_eq {b b' : OrderBook} {buf buf' : SnapshotBuffer} (image : Image maxLevels maxLevels b s buf)
    (image' : Image maxLevels maxLevels b' s buf') (same : datagram maxLevels buf = datagram maxLevels buf')
    (covers : ∀ h, (b.l2 h).length ≤ maxLevels / 2) (covers' : ∀ h, (b'.l2 h).length ≤ maxLevels / 2) :
    b.depth = b'.depth := by
  have shown := image.ui
  rw [same, image'.ui] at shown
  have all : ∀ (l : List SnapshotLevel), l.length ≤ maxLevels / 2 →
      ((l.take (maxLevels / 2)).map fun l => l.row.cells).take maxLevels = l.map fun l => l.row.cells := by
    intro l low
    rw [List.take_of_length_le low, List.take_of_length_le]
    rw [List.length_map]
    omega
  rw [all _ (covers _), all _ (covers _), all _ (covers' _), all _ (covers' _), Option.some.injEq, UiBook.mk.injEq] at shown
  funext h
  cases h with
  | bids => exact image.bids.depth_eq image'.bids shown.1.symm
  | asks => exact image.asks.depth_eq image'.asks shown.2.1.symm

/-- Two runs that show a client the same snapshot and then the same events have the same levels
    at the end, if the events told everything that happened between. -/
theorem resync_levels_eq (fits : maxLevels < 2 ^ 33) (behind : s ≤ t) (v v' : View maxLevels s t data feed)
    (covers : v.Covers) (covers' : v'.Covers) (told : v.Told) (told' : v'.Told) :
    ∃ b b', v.bookAt t = some b ∧ v'.bookAt t = some b' ∧ ∀ h, b.l2 h = b'.l2 h := by
  rcases v.bookAt_snapshot fits with ⟨c, events, buf, run, image, shown⟩
  rcases v'.bookAt_snapshot fits with ⟨c', events', buf', run', image', shown'⟩
  have at_ : v.bookAt s = some c := by
    rw [View.bookAt, run]
    rfl
  have at_' : v'.bookAt s = some c' := by
    rw [View.bookAt, run']
    rfl
  rcases v.between_feed fits behind run with ⟨b, book, ladders, book₁, ladders₁, later, final, refined, refined₁⟩
  rcases v'.between_feed fits behind run' with ⟨b', book', ladders', book₁', ladders₁', later', final', refined', refined₁'⟩
  have same := image.depth_eq image' (shown.trans shown'.symm) (covers c at_) (covers' c' at_')
  have depth := Matcher.submitAll_depth v.between refined (told c at_) later
  have depth' := Matcher.submitAll_depth v'.between refined' (told' c' at_') later'
  rw [same, depth'] at depth
  refine ⟨b, b', final, final', ?_⟩
  intro h
  exact (refined₁.settled.exact h).unique (refined₁'.settled.exact h) (congrFun depth.symm h)

def offerData : List UInt8 :=
  LittleEndian.pack (headerFields
    { magic := SNAPSHOT_MAGIC, version := SNAPSHOT_VERSION, levelCount := 1, feedSeq := 0, bidLevels := 0, askLevels := 1,
      checksum := 112 }) ++
    LittleEndian.pack (levelFields { price := 100, totalQty := 10, orderCount := 1, side := 1 })

def offerRun (last : Order) : Option MatcherLoop :=
  consumeAll 4 1 (fun n => if n = 1 then some blankBuffer else none) [sellTen, last] (create 2 4 4)

def offerShows (last : Order) : Option (List (UInt64 × List UInt8) × List TradeEvent) :=
  (offerRun last).map fun m => (m.snapshots.map fun buf => (buf.header.feedSeq, datagram 4 buf),
    m.events.filter fun event => decide (0 < event.feedSeq ∧ event.feedSeq ≤ 1))

theorem offer_view {last : Order} (second : last.seq = 1) (shown : offerShows last = some ([(0, offerData)], feed)) :
    ∃ v : View 4 0 1 offerData feed, v.orders = [sellTen, last] ∧ ∀ seq, v.bookAt seq =
      (Matcher.submitAll ([sellTen, last].filter fun o => decide (o.seq ≤ seq)) (OrderBook.create 2 4 4)).map Prod.fst := by
  rcases Option.map_eq_some_iff.mp shown with ⟨m, ran, values⟩
  rw [Prod.mk.injEq] at values
  have held : (0, offerData) ∈ m.snapshots.map fun buf => (buf.header.feedSeq, datagram 4 buf) := by
    rw [values.1]
    exact List.mem_singleton_self _
  rcases List.mem_map.mp held with ⟨buf, member, image⟩
  rw [Prod.mk.injEq] at image
  refine ⟨{ maxNodes := 2, idCapacity := 4, levelCapacity := 4, every := 1, slot := _, orders := [sellTen, last], loop := m,
            small := by decide, numbered := ?_, ran := ran, published := ⟨buf, member, image⟩, received := values.2 },
    rfl, fun seq => rfl⟩
  intro i o held
  match i, held with
  | 0, held =>
    cases held
    rfl
  | 1, held =>
    cases held
    rw [second]
    rfl

theorem offer_covers {last : Order} {v : View 4 0 1 offerData feed} (second : last.seq = 1) (orders : v.orders = [sellTen, last])
    (books : ∀ seq, v.bookAt seq =
      (Matcher.submitAll ([sellTen, last].filter fun o => decide (o.seq ≤ seq)) (OrderBook.create 2 4 4)).map Prod.fst) :
    v.bookAt 0 = (Matcher.submitAll [sellTen] (OrderBook.create 2 4 4)).map Prod.fst ∧ v.between = [last] ∧ v.Covers := by
  have alone : [sellTen, last].filter (fun o => decide (o.seq ≤ 0)) = [sellTen] := by
    simp [second, sellTen]
  have shape : ((Matcher.submitAll [sellTen] (OrderBook.create 2 4 4)).map Prod.fst).map (fun b => ((b.l2 .bids).length, (b.l2 .asks).length)) =
      some (0, 1) := by
    decide +kernel
  have first := books 0
  rw [alone] at first
  refine ⟨first, ?_, ?_⟩
  · rw [View.between, orders]
    simp [second, sellTen]
  · intro b found h
    rw [← first, found] at shape
    have lengths := Prod.mk.inj (Option.some.inj shape)
    cases h with
    | bids => rw [lengths.1]; decide
    | asks => rw [lengths.2]; decide

def fourOfTen : TradeEvent :=
  { takerId := 2, makerId := 1, price := 100, feedSeq := 1, quantity := 4, takerSide := 0, status := 0 }

theorem resync_levels_eq_fill :
    ∃ v v' : View 4 0 1 offerData [fourOfTen],
      v.orders = [sellTen, buyFour] ∧
      v'.orders = [sellTen, { buyFour with type := OrderType.MARKET }] ∧
      ∃ b b', v.bookAt 1 = some b ∧ v'.bookAt 1 = some b' ∧ ∀ h, b.l2 h = b'.l2 h := by
  have told : ∀ last ∈ [buyFour, { buyFour with type := OrderType.MARKET }],
      last.type ≠ OrderType.CANCEL ∧ isAdmissible last = true ∧
      ((Matcher.submitAll [sellTen] (OrderBook.create 2 4 4)).map Prod.fst).map (fun b =>
        (Matcher.stopsInside last (b.makers (Half.ofSide last.side).opposite),
          decide (last.remaining.toNat ≤ quantity (Matcher.met last (b.makers (Half.ofSide last.side).opposite))))) =
        some (false, true) := by
    decide +kernel
  have each : ∀ last ∈ [buyFour, { buyFour with type := OrderType.MARKET }],
      ∃ v : View 4 0 1 offerData [fourOfTen],
        v.orders = [sellTen, last] ∧ v.Covers ∧ v.Told := by
    intro last member
    have second : last.seq = 1 ∧ offerShows last = some ([(0, offerData)], [fourOfTen]) := by
      revert last
      decide +kernel
    rcases offer_view second.1 second.2 with ⟨v, orders, books⟩
    rcases offer_covers second.1 orders books with ⟨first, between, covers⟩
    refine ⟨v, orders, covers, ?_⟩
    intro b found
    rcases told last member with ⟨type, good, facts⟩
    rw [← first, found] at facts
    have values := Prod.mk.inj (Option.some.inj facts)
    rw [between]
    exact ⟨.traded type good values.1 (.inr (.inl (of_decide_eq_true values.2))), fun _ _ _ _ => trivial⟩
  rcases each _ List.mem_cons_self with ⟨v, orders, covers, told⟩
  rcases each _ (List.mem_cons_of_mem _ List.mem_cons_self) with ⟨v', orders', covers', told'⟩
  exact ⟨v, v', orders, orders', resync_levels_eq (by decide) (by decide) v v' covers covers' told told'⟩

def restingBid : Order := { buyFour with price := 90 }

def cancelOfNothing : Order := { id := 2, seq := 1, price := 0, quantity := 0, remaining := 0, side := 0, type := 3 }

/-- A bid that rests leaves no trace in the feed, no more than a cancel of nothing. -/
theorem resting_untold :
    ∃ v v' : View 4 0 1 offerData [],
      v.orders = [sellTen, restingBid] ∧
      v'.orders = [sellTen, cancelOfNothing] ∧
      v.Covers ∧ v'.Covers ∧
      ∃ b b', v.bookAt 1 = some b ∧ v'.bookAt 1 = some b' ∧
        b.l2 .bids = [{ price := 90, totalQty := 4, orderCount := 1, side := 0 }] ∧ b'.l2 .bids = [] := by
  have bid : offerShows restingBid = some ([(0, offerData)], []) := by
    decide +kernel
  have cancel : offerShows cancelOfNothing = some ([(0, offerData)], []) := by
    decide +kernel
  rcases offer_view rfl bid with ⟨v, orders, books⟩
  rcases offer_view rfl cancel with ⟨v', orders', books'⟩
  have first : (v.bookAt 1).map (fun b => b.l2 .bids) = some [{ price := 90, totalQty := 4, orderCount := 1, side := 0 }] := by
    rw [books]
    decide +kernel
  have second : (v'.bookAt 1).map (fun b => b.l2 .bids) = some [] := by
    rw [books']
    decide +kernel
  rcases Option.map_eq_some_iff.mp first with ⟨b, found, levels⟩
  rcases Option.map_eq_some_iff.mp second with ⟨b', found', levels'⟩
  exact ⟨v, v', orders, orders', (offer_covers rfl orders books).2.2, (offer_covers rfl orders' books').2.2, b, b', found,
    found', levels, levels'⟩

end MatcherLoop

end Titan
