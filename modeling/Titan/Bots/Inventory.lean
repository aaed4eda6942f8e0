import Titan.Bots.OrderTable

namespace Titan

namespace MarketMaker

variable {s s' : MarketMaker} {f : OrderId → Nat} {past : List TradeEvent} {x : OrderId} {o : Order} {side : Side}
  {sent : List Order}

def total (side : Side) (sent : List Order) (f : OrderId → Nat) : Nat :=
  ((sent.filter fun o => o.type ≠ OrderType.CANCEL ∧ o.side = side).map fun o => f o.id).sum

theorem total_nil (side : Side) (f : OrderId → Nat) : total side [] f = 0 := rfl

theorem total_cons (side : Side) (o : Order) (sent : List Order) (f : OrderId → Nat) :
    total side (o :: sent) f = (if o.type ≠ OrderType.CANCEL ∧ o.side = side then f o.id else 0) + total side sent f := by
  rw [total, List.filter_cons]
  by_cases counted : o.type ≠ OrderType.CANCEL ∧ o.side = side
  · rw [if_pos (decide_eq_true counted), if_pos counted]
    rfl
  · rw [if_neg (by simpa using counted), if_neg counted, Nat.zero_add]
    rfl

theorem total_concat (none : o.type ≠ OrderType.CANCEL → f o.id = 0) (side : Side) (sent : List Order) :
    total side (sent ++ [o]) f = total side sent f := by
  induction sent with
  | nil =>
    rw [List.nil_append, total_cons, total_nil, Nat.add_zero]
    split
    · rename_i counted
      exact none counted.1
    · rfl
  | cons p sent ih => rw [List.cons_append, total_cons, total_cons, ih]

theorem total_miss (away : ∀ o ∈ sent, o.type ≠ OrderType.CANCEL → o.id = x → o.side ≠ side) (q : Nat) :
    total side sent (credit f x q) = total side sent f := by
  induction sent with
  | nil => rfl
  | cons o sent ih =>
    rw [total_cons, total_cons, ih fun p member => away p (List.mem_cons_of_mem _ member)]
    congr 1
    split
    · rename_i counted
      have apart : o.id ≠ x := fun same => away o List.mem_cons_self counted.1 same counted.2
      exact credit_other apart q
    · rfl

theorem total_hit (distinct : sent.Pairwise fun o later => o.type ≠ OrderType.CANCEL → later.type ≠ OrderType.CANCEL → o.id ≠ later.id)
    (member : o ∈ sent) (type : o.type ≠ OrderType.CANCEL) (q : Nat) :
    total o.side sent (credit f o.id q) = total o.side sent f + q := by
  induction sent with
  | nil => cases member
  | cons p sent ih =>
    rw [List.pairwise_cons] at distinct
    rw [total_cons, total_cons]
    rcases List.mem_cons.mp member with rfl | later
    · have away : ∀ p ∈ sent, p.type ≠ OrderType.CANCEL → p.id = o.id → p.side ≠ o.side := fun p held kind same =>
        absurd same.symm (distinct.1 p held type kind)
      rw [total_miss away, if_pos ⟨type, rfl⟩, if_pos ⟨type, rfl⟩, credit_self]
      omega
    · rw [ih distinct.2 later]
      split
      · rename_i counted
        rw [credit_other (distinct.1 o later counted.1 type)]
        omega
      · omega

/-- The inventory holds exactly what has been counted, and so does each entry of `g_orders`. -/
structure Counted (s : MarketMaker) (f : OrderId → Nat) : Prop where
  unentered : ∀ o ∈ s.sent, o.type ≠ OrderType.CANCEL → o.id ∉ s.recorded → f o.id = 0
  within : ∀ x entry, s.orders.find x = some entry → ∀ o ∈ s.sent, o.type ≠ OrderType.CANCEL → o.id = x →
    entry.remaining.toNat + f x ≤ o.remaining.toNat
  inventory : s.inventory = total Side.BUY s.sent f - total Side.SELL s.sent f

namespace Counted

variable {cap : Nat} {book : PriceTime.Book} {ladders : Half → Ladder} {a : Action} {event : TradeEvent}

theorem create (book : OrderBook) : Counted (MarketMaker.create book) f where
  unentered := by
    intro o member
    cases member
  within := by
    intro x entry found
    cases found
  inventory := rfl

theorem congr (counted : Counted s f) (orders : s'.orders = s.orders) (sent : s'.sent = s.sent)
    (recorded : s'.recorded = s.recorded) (inventory : s'.inventory = s.inventory) : Counted s' f := by
  constructor
  · rw [sent, recorded]
    exact counted.unentered
  · rw [orders, sent]
    exact counted.within
  · rw [inventory, sent]
    exact counted.inventory

theorem erase (counted : Counted s f) {id : OrderId} (orders : s'.orders = s.orders.erase id) (sent : s'.sent = s.sent)
    (recorded : s'.recorded = s.recorded) (inventory : s'.inventory = s.inventory) : Counted s' f := by
  constructor
  · rw [sent, recorded]
    exact counted.unentered
  · rw [orders, sent]
    intro x entry found
    rw [MyOrders.find_erase] at found
    split at found
    · cases found
    · exact counted.within x entry found
  · rw [inventory, sent]
    exact counted.inventory

theorem post (counted : Counted s f) (table : Table s f past) (fresh : o.type ≠ OrderType.CANCEL → o.id ∉ s.recorded)
    (none : o.type ≠ OrderType.CANCEL → f o.id = 0) (orders : s'.orders = s.orders) (sent : s'.sent = s.sent ++ [o])
    (recorded : s'.recorded = s.recorded) (inventory : s'.inventory = s.inventory) : Counted s' f := by
  constructor
  · rw [sent, recorded]
    intro p member type unknown
    rcases List.mem_append.mp member with old | new
    · exact counted.unentered p old type unknown
    · rw [List.mem_singleton.mp new] at type ⊢
      exact none type
  · rw [orders, sent]
    intro x entry found p member type same
    rcases List.mem_append.mp member with old | new
    · exact counted.within x entry found p old type same
    · rw [List.mem_singleton.mp new] at type same
      exact absurd (same ▸ (table.entries x entry found).1) (fresh type)
  · rw [inventory, sent, total_concat none, total_concat none]
    exact counted.inventory

theorem record (counted : Counted s f) (table : Table s f past) (waits : s.pending = some o)
    (unique : ∀ p ∈ s.sent, p.type ≠ OrderType.CANCEL → p.id = o.id → p = o)
    (still : Still (s.record o.id o.side o.price) s') : Counted s' f := by
  have orders : s'.orders = s.orders.set o.id { side := o.side, price := o.price, remaining := QUOTE_QTY } := still.orders
  have sent : s'.sent = s.sent := still.sent
  have recorded : s'.recorded = o.id :: s.recorded := still.recorded
  have inventory : s'.inventory = s.inventory := still.inventory
  constructor
  · rw [sent, recorded]
    intro p member type unknown
    exact counted.unentered p member type fun entered => unknown (List.mem_cons_of_mem _ entered)
  · rw [orders, sent]
    intro x entry found p member type same
    rw [MyOrders.find_set] at found
    split at found
    · rename_i named
      cases found
      have again : p = o := unique p member type (same.trans named)
      subst again
      have none := counted.unentered p member type (table.pending p waits).2
      rw [← same, none, (pending_quote waits).2]
      exact Nat.le_refl _
    · exact counted.within x entry found p member type same
  · rw [inventory, sent]
    exact counted.inventory

theorem foreign (counted : Counted s f) (table : Table s f past) (none : ∀ o ∈ s.sent, o.type ≠ OrderType.CANCEL → o.id ≠ x)
    (q : Qty) : Counted (s.applyFill x q) (credit f x q.toNat) := by
  have absent : s.orders.find x = Option.none := by
    rcases found : s.orders.find x with _ | entry
    · rfl
    · rcases table.recorded x (table.entries x entry found).1 with ⟨o, member, limit, same⟩
      exact absurd same (none o member (limit_not_cancel limit))
  rcases s.applyFill_cases x q with ⟨-, same⟩ | ⟨entry, found, -⟩
  · rw [same]
    have away : ∀ side, ∀ o ∈ s.sent, o.type ≠ OrderType.CANCEL → o.id = x → o.side ≠ side := fun _ o member type same =>
      absurd same (none o member type)
    constructor
    · intro o member type unknown
      rw [credit_other (none o member type)]
      exact counted.unentered o member type unknown
    · intro y entry found o member type named
      have apart : y ≠ x := fun same => none o member type (named.trans same)
      rw [credit_other apart]
      exact counted.within y entry found o member type named
    · rw [total_miss (away _), total_miss (away _)]
      exact counted.inventory
  · rw [absent] at found
    cases found

theorem net_credit (exchange : Exchange s cap book ladders) (member : o ∈ s.sent) (type : o.type ≠ OrderType.CANCEL)
    (sides : o.side = Side.BUY ∨ o.side = Side.SELL) (q : Nat) :
    (total Side.BUY s.sent (credit f o.id q) : Int) - total Side.SELL s.sent (credit f o.id q) =
      if o.side = Side.BUY then (total Side.BUY s.sent f : Int) - total Side.SELL s.sent f + q
      else (total Side.BUY s.sent f : Int) - total Side.SELL s.sent f - q := by
  have hit := total_hit (f := f) exchange.distinct member type q
  have away : ∀ other, other ≠ o.side → ∀ p ∈ s.sent, p.type ≠ OrderType.CANCEL → p.id = o.id → p.side ≠ other := by
    intro other apart p held kind same
    rw [exchange.unique held member kind type same]
    exact apart.symm
  rcases sides with buy | sell
  · rw [buy] at hit away
    rw [if_pos buy, hit, total_miss (away Side.SELL (by decide))]
    omega
  · rw [sell] at hit away
    rw [if_neg (by rw [sell]; decide), hit, total_miss (away Side.BUY (by decide))]
    omega

theorem own (counted : Counted s f) (exchange : Exchange s cap book ladders) (table : Table s f past) (member : o ∈ s.sent)
    (type : o.type ≠ OrderType.CANCEL) {entry : MyOrder} (found : s.orders.find o.id = some entry) {q : Qty}
    (fits : f o.id + q.toNat ≤ o.remaining.toNat) : Counted (s.applyFill o.id q) (credit f o.id q.toNat) := by
  have old := table.entries o.id entry found
  rcases old.2 o member type rfl with ⟨side, enough⟩
  rcases s.applyFill_cases o.id q with ⟨absent | zero, same⟩ | ⟨entry', again, -, eq⟩
  · rw [absent] at found
    cases found
  · rw [same, zero]
    exact (credit_zero f o.id).symm ▸ counted
  rw [found] at again
  cases again
  have whole : takeOf q entry.remaining = q := takeOf_eq (by omega)
  have left := (takeOf_le q entry.remaining).2
  rw [whole] at eq left
  rw [eq]
  constructor
  · intro p held kind unknown
    have apart : p.id ≠ o.id := fun same => unknown (same ▸ old.1)
    rw [credit_other apart]
    exact counted.unentered p held kind unknown
  · intro y entry' there p held kind same
    dsimp only at there
    have others : y ≠ o.id → s.orders.find y = some entry' → entry'.remaining.toNat + credit f o.id q.toNat y ≤ p.remaining.toNat := by
      intro apart there
      rw [credit_other apart]
      exact counted.within y entry' there p held kind same
    split at there
    · rw [MyOrders.find_erase] at there
      split at there
      · cases there
      · rename_i apart
        exact others apart there
    · rw [MyOrders.find_set] at there
      split at there
      · rename_i named
        cases there
        have before := counted.within o.id entry found p held kind (same.trans named)
        rw [named, credit_self]
        dsimp only
        omega
      · rename_i apart
        exact others apart there
  · have net := net_credit (f := f) exchange member type (table.sides o member type) q.toNat
    rw [net, ← counted.inventory, side]

theorem fill (counted : Counted s f) (exchange : Exchange s cap book ladders) (table : Table s f past) {q : Qty}
    (ready : ∀ o ∈ s.sent, o.type ≠ OrderType.CANCEL → o.id = x → o.id ∈ s.recorded ∧ o.id ∉ s.dropped)
    (fits : ∀ o ∈ s.sent, o.type ≠ OrderType.CANCEL → o.id = x → f x + q.toNat ≤ o.remaining.toNat)
    (last : ∀ event ∈ past, event.status ≠ TRADE_STATUS_FILL → event.takerId = x → q = 0) :
    Counted (s.applyFill x q) (credit f x q.toNat) := by
  by_cases ours : ∃ o ∈ s.sent, o.type ≠ OrderType.CANCEL ∧ o.id = x
  · rcases ours with ⟨o, member, type, rfl⟩
    rcases found : s.orders.find o.id with _ | entry
    · have zero : q = 0 := by
        rcases table.missing o member type (ready o member type rfl).1 found with dropped | filled | ⟨event, heard, refused, taker⟩
        · exact absurd dropped (ready o member type rfl).2
        · have room := fits o member type rfl
          have none : q.toNat = 0 := by omega
          exact UInt32.toNat_inj.mp none
        · exact last event heard refused taker
      rcases s.applyFill_cases o.id q with ⟨-, same⟩ | ⟨entry, -, some, -⟩
      · rw [same, zero]
        exact (credit_zero f o.id).symm ▸ counted
      · exact absurd zero some
    · exact counted.own exchange table member type found (fits o member type rfl)
  · exact counted.foreign table (fun o member type same => ours ⟨o, member, type, same⟩) q

theorem last_of_refused (tracked : Tracked s cap book ladders) (next : s.events[s.heard]? = some event)
    (fill : event.status = TRADE_STATUS_FILL) (named : event.takerId = x ∨ event.makerId = x) :
    ∀ refusal ∈ s.handled, refusal.status ≠ TRADE_STATUS_FILL → refusal.takerId = x → event.quantity = 0 := by
  intro refusal heard refused same
  have orderly := tracked.exchange.traded.orderly.sublist (List.take_sublist (s.heard + 1) s.events)
  rw [take_heard next, List.pairwise_append] at orderly
  have none := orderly.2.2 refusal heard event List.mem_cons_self refused
  rw [same, TradeEvent.fillOf, if_pos fill] at none
  have zero : event.quantity.toNat = 0 := by
    rcases named with taker | maker
    · rw [if_pos taker] at none
      omega
    · rw [if_pos maker] at none
      omega
  exact UInt32.toNat_inj.mp zero

theorem handle (counted : Counted s fun id => fillsOf id s.handled) (tracked : Tracked s cap book ladders)
    (next : s.events[s.heard]? = some event)
    (ready : event.status = TRADE_STATUS_FILL → ∀ o ∈ s.sent, o.type ≠ OrderType.CANCEL →
      o.id = event.takerId ∨ o.id = event.makerId → o.id ∈ s.recorded ∧ o.id ∉ s.dropped) :
    Counted (s.handle event) fun id => fillsOf id (s.handled ++ [event]) := by
  rw [MarketMaker.handle]
  split
  · rename_i refused
    rw [fillsOf_reject refused]
    exact counted.erase rfl rfl rfl rfl
  · rename_i taken
    have fill := (tracked.exchange.traded.statuses event (List.mem_of_getElem? next)).resolve_right taken
    have counts := fillsOf_fill fill s.handled
    have fits : ∀ o ∈ s.sent, o.type ≠ OrderType.CANCEL →
        credit (credit (fun id => fillsOf id s.handled) event.takerId event.quantity.toNat) event.makerId event.quantity.toNat o.id ≤
          o.remaining.toNat := by
      intro o member type
      have whole := tracked.exchange.fills_le member type
      rw [← List.take_append_drop (s.heard + 1) s.events, take_heard next, fillsOf_append] at whole
      rw [← counts]
      dsimp only
      exact Nat.le_trans (Nat.le_add_right _ _) (Nat.le_trans (Nat.le_add_right _ _) whole)
    have sent : (s.applyFill event.takerId event.quantity).sent = s.sent := by rw [applyFill_eq]
    have recorded : (s.applyFill event.takerId event.quantity).recorded = s.recorded := by rw [applyFill_eq]
    have dropped : (s.applyFill event.takerId event.quantity).dropped = s.dropped := by rw [applyFill_eq]
    have exchange : Exchange (s.applyFill event.takerId event.quantity) cap book ladders := by
      rw [applyFill_eq]
      exact tracked.exchange.congr rfl rfl rfl rfl rfl rfl
    have first : Counted (s.applyFill event.takerId event.quantity)
        (credit (fun id => fillsOf id s.handled) event.takerId event.quantity.toNat) := by
      apply counted.fill tracked.exchange tracked.table
      · intro o member type same
        exact ready fill o member type (.inl same)
      · intro o member type same
        have room := (le_credit _ event.makerId _ o.id).trans (fits o member type)
        rw [same, credit_self] at room
        exact room
      · exact last_of_refused tracked next fill (.inl rfl)
    rw [counts]
    -- The bot may have traded with itself, so the maker's fill is counted on top of the taker's.
    apply first.fill exchange (tracked.table.fill event.takerId event.quantity)
    · rw [sent, recorded, dropped]
      intro o member type same
      exact ready fill o member type (.inr same)
    · rw [sent]
      intro o member type same
      have room := fits o member type
      rw [same, credit_self] at room
      exact room
    · exact last_of_refused tracked next fill (.inr rfl)

end Counted

/-- A fill of an order of the bot is handled when `fire` has entered the order in `g_orders` and
    `cancel_order` has not yet erased it. -/
def Timely : Action → MarketMaker → Prop
  | .listen, s => ∀ event ∈ s.events[s.heard]?.toList, event.status = TRADE_STATUS_FILL →
    ∀ o ∈ s.sent, o.type ≠ OrderType.CANCEL → o.id = event.takerId ∨ o.id = event.makerId → o.id ∈ s.recorded ∧ o.id ∉ s.dropped
  | _, _ => True

instance (a : Action) (s : MarketMaker) : Decidable (Timely a s) :=
  match a with
  | .listen => inferInstanceAs (Decidable (∀ event ∈ s.events[s.heard]?.toList, event.status = TRADE_STATUS_FILL →
      ∀ o ∈ s.sent, o.type ≠ OrderType.CANCEL → o.id = event.takerId ∨ o.id = event.makerId → o.id ∈ s.recorded ∧ o.id ∉ s.dropped))
  | .connect _ | .pass .. | .walk _ | .send _ | .update | .deliver | .trade _ => inferInstanceAs (Decidable True)

def filledOn (s : MarketMaker) (side : Side) : Nat := total side s.sent fun id => fillsOf id s.events

/-- A send is half done as long as the update of `g_orders` that follows it is due. -/
def halfDone (s : MarketMaker) : Bool := s.update.isSome

namespace Counted

variable {cap : Nat} {book : PriceTime.Book} {ladders : Half → Ladder} {a : Action}

theorem effect (counted : Counted s fun id => fillsOf id s.handled) (tracked : Tracked s cap book ladders) (effect : Effect s s') :
    Counted s' fun id => fillsOf id s.handled := by
  cases effect with
  | quiet still _ _ => exact counted.congr still.orders still.sent still.recorded still.inventory
  | sent o fresh _ still _ _ =>
    have none : o.type ≠ OrderType.CANCEL → fillsOf o.id s.handled = 0 := by
      intro type
      have unseen := (tracked.exchange.unseen (fresh type)).2
      rw [← List.take_append_drop s.heard s.events, fillsOf_append] at unseen
      exact Nat.eq_zero_of_add_eq_zero_right unseen
    exact counted.post tracked.table (fun type => tracked.fresh (fresh type)) none still.orders still.sent still.recorded still.inventory
  | recorded o before still _ => exact counted.record tracked.table before (fun _ => tracked.unique before) still
  | dropped id _ still _ => exact counted.erase still.orders still.sent still.recorded still.inventory

theorem step (counted : Counted s fun id => fillsOf id s.handled) (tracked : Tracked s cap book ladders) (timely : Timely a s)
    (taken : act a s = some s') : Counted s' fun id => fillsOf id s'.handled := by
  cases act_cases taken with
  | main effect =>
    rcases effect.feed with ⟨events, heard⟩
    have same : s'.handled = s.handled := by rw [handled, handled, events, heard]
    rw [same]
    exact counted.effect tracked effect
  | deliver o next executed =>
    rw [(handled_execute executed tracked.heard).1]
    rcases execute_eq executed with ⟨b, later, result, -, rfl⟩
    exact counted.congr rfl rfl rfl rfl
  | trade o fresh executed =>
    rw [(handled_execute executed tracked.heard).1]
    rcases execute_eq executed with ⟨b, later, result, -, rfl⟩
    exact counted.congr rfl rfl rfl rfl
  | listen label event next eq =>
    subst label eq
    rw [handled_listen next]
    have ready := timely event (by rw [next]; exact List.mem_cons_self)
    exact (counted.handle tracked next ready).congr rfl rfl rfl rfl

end Counted

variable {maxNodes : Nat}

/-- When the whole feed has been handled, the inventory is what has been filled on the bot's buy
    orders less what has been filled on its sell orders. -/
theorem inventory_eq_filled (small : maxNodes * PinNode.CAPACITY < 2 ^ 32) (idCapacity levelCapacity : Nat)
    (reach : Transition.ReachableIf step Timely (create (OrderBook.create maxNodes idCapacity levelCapacity)) s)
    (all : s.heard = s.events.length) : s.inventory = s.filledOn Side.BUY - s.filledOn Side.SELL := by
  have keeps : ∀ s a s' book ladders, Tracked s (levelCapacity % 2 ^ 32) book ladders → (Counted s fun id => fillsOf id s.handled) →
      Timely a s → act a s = some s' → Counted s' fun id => fillsOf id s'.handled :=
    fun s a s' book ladders tracked counted => counted.step tracked
  rcases Tracked.along small idCapacity levelCapacity (Counted.create _) keeps reach with ⟨-, -, -, counted⟩
  have whole : s.handled = s.events := by
    rw [handled, all]
    exact List.take_length
  have inventory := counted.inventory
  rw [whole] at inventory
  exact inventory

/-- A quote is hit, and the fill is handled while the quote stands. -/
theorem inventory_eq_filled_of_hit : ∃ s : MarketMaker, s.heard = 1 ∧ s.events.length = 1 ∧ s.filledOn Side.BUY = 5 ∧
    s.inventory = s.filledOn Side.BUY - s.filledOn Side.SELL := by
  let seller : Order := { id := 7, seq := 0, price := 9995, quantity := 5, remaining := 5, side := Side.SELL, type := OrderType.LIMIT }
  have ran : (Transition.runIf step Timely [.connect true, .pass 10000 0 false, .send true, .update, .send true, .update,
      .deliver, .deliver, .trade seller, .listen] (create (OrderBook.create 4 4194304 8))).map
      (fun s => (s.heard, s.events.length, s.filledOn Side.BUY)) = some (1, 1, 5) := by decide +kernel
  rcases Option.map_eq_some_iff.mp ran with ⟨s, path, seen⟩
  rw [Prod.mk.injEq, Prod.mk.injEq] at seen
  have inventory := inventory_eq_filled (by decide) 4194304 8 (Transition.ReachableIf.start.run path) (seen.1.trans seen.2.1.symm)
  exact ⟨s, seen.1, seen.2.1, seen.2.2, inventory⟩

/-- A fill that is on its way when the quote is cancelled never reaches the inventory. -/
theorem cancelled_fill_lost : ∃ s : MarketMaker, Transition.Reachable step (create (OrderBook.create 4 4194304 8)) s ∧
    s.heard = s.events.length ∧ s.halfDone = false ∧ s.inventory = 0 ∧ s.filledOn Side.BUY = 5 ∧ s.filledOn Side.SELL = 0 := by
  let seller : Order := { id := 7, seq := 0, price := 9995, quantity := 5, remaining := 5, side := Side.SELL, type := OrderType.LIMIT }
  have ran : (Transition.run step [.connect true, .pass 10000 0 false, .send true, .update, .send true, .update,
      .deliver, .deliver, .trade seller, .pass 10000 0 true, .send true, .update, .send true, .update, .listen]
      (create (OrderBook.create 4 4194304 8))).map
      (fun s => (s.heard, s.events.length, s.halfDone, s.inventory, s.filledOn Side.BUY, s.filledOn Side.SELL)) =
      some (1, 1, false, 0, 5, 0) := by decide +kernel
  rcases Option.map_eq_some_iff.mp ran with ⟨s, path, seen⟩
  simp only [Prod.mk.injEq] at seen
  exact ⟨s, Transition.Reachable.start.run path, seen.1.trans seen.2.1.symm, seen.2.2⟩

end MarketMaker

end Titan
