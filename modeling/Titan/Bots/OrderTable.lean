import Titan.Bots.Exchange

namespace Titan

namespace MarketMaker

variable {s s' : MarketMaker} {f : OrderId → Nat} {past : List TradeEvent} {x : OrderId} {o : Order}

/-- The order was filled to its end or refused, as far as a stretch of the feed tells. -/
def Ended (f : OrderId → Nat) (past : List TradeEvent) (o : Order) : Prop :=
  o.remaining.toNat ≤ f o.id ∨ ∃ event ∈ past, event.status ≠ TRADE_STATUS_FILL ∧ event.takerId = o.id

theorem Ended.mono {g : OrderId → Nat} {later : List TradeEvent} (ended : Ended f past o) (grows : ∀ y, f y ≤ g y)
    (longer : past ⊆ later) : Ended g later o := by
  rcases ended with filled | ⟨event, heard, refused⟩
  · exact .inl (filled.trans (grows o.id))
  · exact .inr ⟨event, longer heard, refused⟩

/-- `g_orders` against the orders sent. `f` is the quantity counted under each id, out of the
    stretch `past` of the feed. An entry never holds less than what is unfilled of its order, and
    an entry that is gone was erased by `cancel_order` or its order has ended. -/
structure Table (s : MarketMaker) (f : OrderId → Nat) (past : List TradeEvent) : Prop where
  pending : ∀ o, s.pending = some o → o ∈ s.sent ∧ o.id ∉ s.recorded
  sides : ∀ o ∈ s.sent, o.type ≠ OrderType.CANCEL → o.side = Side.BUY ∨ o.side = Side.SELL
  recorded : ∀ x ∈ s.recorded, ∃ o ∈ s.sent, o.type = OrderType.LIMIT ∧ o.id = x
  entries : ∀ x entry, s.orders.find x = some entry → x ∈ s.recorded ∧
    ∀ o ∈ s.sent, o.type ≠ OrderType.CANCEL → o.id = x → entry.side = o.side ∧ o.remaining.toNat ≤ entry.remaining.toNat + f x
  missing : ∀ o ∈ s.sent, o.type ≠ OrderType.CANCEL → o.id ∈ s.recorded → s.orders.find o.id = none →
    o.id ∈ s.dropped ∨ Ended f past o

theorem pending_quote (waits : s.pending = some o) : o.type = OrderType.LIMIT ∧ o.remaining = QUOTE_QTY := by
  rw [MarketMaker.pending] at waits
  split at waits
  · cases waits
    exact ⟨rfl, rfl⟩
  · cases waits
    exact ⟨rfl, rfl⟩
  · cases waits

theorem Table.create (book : OrderBook) : Table (MarketMaker.create book) f past := by
  refine ⟨?_, ?_, ?_, ?_, ?_⟩
  · intro o waits
    cases waits
  · intro o member
    cases member
  · intro x member
    cases member
  · intro x entry found
    cases found
  · intro o member
    cases member

theorem Table.congr (table : Table s f past) (orders : s'.orders = s.orders) (sent : s'.sent = s.sent)
    (recorded : s'.recorded = s.recorded) (dropped : s'.dropped = s.dropped) (pending : s'.pending = s.pending) :
    Table s' f past := by
  constructor
  · rw [pending, sent, recorded]
    exact table.pending
  · rw [sent]
    exact table.sides
  · rw [recorded, sent]
    exact table.recorded
  · rw [orders, sent, recorded]
    exact table.entries
  · rw [orders, sent, recorded, dropped]
    exact table.missing

theorem Table.mono {g : OrderId → Nat} {later : List TradeEvent} (table : Table s f past) (grows : ∀ y, f y ≤ g y)
    (longer : past ⊆ later) : Table s g later := by
  refine ⟨table.pending, table.sides, table.recorded, ?_, ?_⟩
  · intro x entry found
    refine ⟨(table.entries x entry found).1, ?_⟩
    intro o member type same
    have kept := (table.entries x entry found).2 o member type same
    exact ⟨kept.1, kept.2.trans (Nat.add_le_add_left (grows x) _)⟩
  · intro o member type entered gone
    exact (table.missing o member type entered gone).imp_right fun ended => ended.mono grows longer

theorem Table.post (table : Table s f past) (fresh : o.type ≠ OrderType.CANCEL → o.id ∉ s.recorded)
    (side : o.type ≠ OrderType.CANCEL → o.side = Side.BUY ∨ o.side = Side.SELL)
    (orders : s'.orders = s.orders) (sent : s'.sent = s.sent ++ [o]) (recorded : s'.recorded = s.recorded)
    (dropped : s'.dropped = s.dropped) (after : s'.pending = if o.type = OrderType.LIMIT then some o else none) :
    Table s' f past := by
  have last : o ∈ s.sent ++ [o] := List.mem_append_right _ List.mem_cons_self
  constructor
  · rw [after, sent, recorded]
    intro p waits
    split at waits
    · rename_i kind
      cases waits
      exact ⟨last, fresh (limit_not_cancel kind)⟩
    · cases waits
  · rw [sent]
    intro p member type
    rcases List.mem_append.mp member with old | new
    · exact table.sides p old type
    · rw [List.mem_singleton.mp new] at type ⊢
      exact side type
  · rw [sent, recorded]
    intro x entered
    rcases table.recorded x entered with ⟨p, member, kind⟩
    exact ⟨p, List.mem_append_left _ member, kind⟩
  · rw [orders, sent, recorded]
    intro x entry found
    have entered := (table.entries x entry found).1
    refine ⟨entered, ?_⟩
    intro p member type same
    rcases List.mem_append.mp member with old | new
    · exact (table.entries x entry found).2 p old type same
    · rw [List.mem_singleton.mp new] at type same
      exact absurd (same ▸ entered) (fresh type)
  · rw [orders, sent, recorded, dropped]
    intro p member type entered
    rcases List.mem_append.mp member with old | new
    · exact table.missing p old type entered
    · rw [List.mem_singleton.mp new] at type entered
      exact absurd entered (fresh type)

theorem Table.record (table : Table s f past) (waits : s.pending = some o)
    (unique : ∀ p ∈ s.sent, p.type ≠ OrderType.CANCEL → p.id = o.id → p = o)
    (still : Still (s.record o.id o.side o.price) s') (after : s'.pending = none) : Table s' f past := by
  have orders : s'.orders = s.orders.set o.id { side := o.side, price := o.price, remaining := QUOTE_QTY } := still.orders
  have sent : s'.sent = s.sent := still.sent
  have recorded : s'.recorded = o.id :: s.recorded := still.recorded
  have dropped : s'.dropped = s.dropped := still.dropped
  have quote := pending_quote waits
  constructor
  · rw [after]
    intro p waits
    cases waits
  · rw [sent]
    exact table.sides
  · rw [sent, recorded]
    intro x entered
    rcases List.mem_cons.mp entered with rfl | old
    · exact ⟨o, (table.pending o waits).1, quote.1, rfl⟩
    · exact table.recorded x old
  · rw [orders, sent, recorded]
    intro x entry found
    rw [MyOrders.find_set] at found
    split at found
    · rename_i same
      cases found
      refine ⟨same ▸ List.mem_cons_self, ?_⟩
      intro p member type named
      rw [unique p member type (named.trans same), quote.2]
      exact ⟨rfl, Nat.le_add_right _ _⟩
    · exact ⟨List.mem_cons_of_mem _ (table.entries x entry found).1, (table.entries x entry found).2⟩
  · rw [orders, sent, recorded, dropped]
    intro p member type entered gone
    rw [MyOrders.find_set] at gone
    split at gone
    · cases gone
    · rename_i apart
      exact table.missing p member type ((List.mem_cons.mp entered).resolve_left apart) gone

theorem Table.erase (table : Table s f past) {id : OrderId} (orders : s'.orders = s.orders.erase id) (sent : s'.sent = s.sent)
    (recorded : s'.recorded = s.recorded) (dropped : s.dropped ⊆ s'.dropped) (pending : s'.pending = s.pending)
    (spent : ∀ o ∈ s.sent, o.type ≠ OrderType.CANCEL → o.id = id → o.id ∈ s'.dropped ∨ Ended f past o) : Table s' f past := by
  constructor
  · rw [pending, sent, recorded]
    exact table.pending
  · rw [sent]
    exact table.sides
  · rw [recorded, sent]
    exact table.recorded
  · rw [orders, sent, recorded]
    intro x entry found
    rw [MyOrders.find_erase] at found
    split at found
    · cases found
    · exact table.entries x entry found
  · rw [orders, sent, recorded]
    intro o member type entered gone
    rw [MyOrders.find_erase] at gone
    split at gone
    · rename_i same
      exact spent o member type same
    · rcases table.missing o member type entered gone with old | ended
      · exact .inl (dropped old)
      · exact .inr ended

theorem takeOf_le (q r : Qty) : (takeOf q r).toNat ≤ q.toNat ∧ (r - takeOf q r).toNat + (takeOf q r).toNat = r.toNat := by
  rw [takeOf]
  split
  · rename_i part
    have low : q ≤ r := UInt32.le_of_lt part
    refine ⟨Nat.le_refl _, ?_⟩
    rw [UInt32.toNat_sub_of_le _ _ low]
    exact Nat.sub_add_cancel (UInt32.le_iff_toNat_le.mp low)
  · rename_i whole
    refine ⟨UInt32.le_iff_toNat_le.mp (UInt32.not_lt.mp whole), ?_⟩
    rw [UInt32.toNat_sub_of_le _ _ (UInt32.le_refl r), Nat.sub_self, Nat.zero_add]

theorem takeOf_eq {q r : Qty} (fits : q.toNat ≤ r.toNat) : takeOf q r = q := by
  rw [takeOf]
  split
  · rfl
  · rename_i whole
    exact UInt32.toNat_inj.mp (Nat.le_antisymm (UInt32.le_iff_toNat_le.mp (UInt32.not_lt.mp whole)) fits)

def credit (f : OrderId → Nat) (x : OrderId) (q : Nat) (y : OrderId) : Nat := if y = x then f y + q else f y

theorem credit_self (f : OrderId → Nat) (x : OrderId) (q : Nat) : credit f x q x = f x + q := if_pos rfl

theorem credit_other {y : OrderId} (apart : y ≠ x) (q : Nat) : credit f x q y = f y := if_neg apart

theorem credit_zero (f : OrderId → Nat) (x : OrderId) : credit f x 0 = f := by
  funext y
  exact ite_self (f y)

theorem le_credit (f : OrderId → Nat) (x : OrderId) (q : Nat) (y : OrderId) : f y ≤ credit f x q y := by
  rw [credit]
  split
  · exact Nat.le_add_right _ _
  · exact Nat.le_refl _

theorem Table.emptied (table : Table s f past) {entry : MyOrder} (found : s.orders.find x = some entry) {q : Qty}
    (empty : entry.remaining - takeOf q entry.remaining = 0) (member : o ∈ s.sent) (type : o.type ≠ OrderType.CANCEL)
    (same : o.id = x) : Ended (credit f x q.toNat) past o := by
  have enough := ((table.entries x entry found).2 o member type same).2
  have taken := takeOf_le q entry.remaining
  have none : (0 : Qty).toNat = 0 := rfl
  rw [empty] at taken
  refine .inl ?_
  rw [same, credit_self]
  omega

theorem Table.fill (table : Table s f past) (x : OrderId) (q : Qty) : Table (s.applyFill x q) (credit f x q.toNat) past := by
  have grown : Table s (credit f x q.toNat) past := table.mono (le_credit f x q.toNat) (List.Subset.refl past)
  rcases s.applyFill_cases x q with ⟨-, same⟩ | ⟨entry, found, -, eq⟩
  · rw [same]
    exact grown
  · rw [eq]
    have taken := takeOf_le q entry.remaining
    have old := table.entries x entry found
    split
    · rename_i empty
      refine grown.erase rfl rfl rfl (List.Subset.refl _) rfl ?_
      intro o member type same
      exact .inr (table.emptied found empty member type same)
    · refine ⟨table.pending, table.sides, table.recorded, ?_, ?_⟩
      · intro y entry' there
        rw [MyOrders.find_set] at there
        split at there
        · rename_i same
          subst same
          cases there
          refine ⟨old.1, ?_⟩
          intro o member type named
          have enough := (old.2 o member type named).2
          refine ⟨(old.2 o member type named).1, ?_⟩
          rw [credit_self]
          dsimp only
          omega
        · exact grown.entries y entry' there
      · intro o member type entered gone
        rw [MyOrders.find_set] at gone
        split at gone
        · cases gone
        · exact grown.missing o member type entered gone

theorem take_heard {event : TradeEvent} (next : s.events[s.heard]? = some event) :
    s.events.take (s.heard + 1) = s.events.take s.heard ++ [event] := by
  rw [List.take_add_one, next]
  rfl

theorem fillsOf_fill {event : TradeEvent} (fill : event.status = TRADE_STATUS_FILL) (past : List TradeEvent) :
    (fun id => fillsOf id (past ++ [event])) =
      credit (credit (fun id => fillsOf id past) event.takerId event.quantity.toNat) event.makerId event.quantity.toNat := by
  funext id
  rw [fillsOf_append, fillsOf_cons, fillsOf_nil, TradeEvent.fillOf, if_pos fill, credit, credit]
  by_cases taker : event.takerId = id
  · rw [if_pos taker, if_pos taker.symm]
    by_cases maker : event.makerId = id
    · rw [if_pos maker, if_pos maker.symm]
      omega
    · rw [if_neg maker, if_neg (Ne.symm maker)]
      omega
  · rw [if_neg taker, if_neg (Ne.symm taker)]
    by_cases maker : event.makerId = id
    · rw [if_pos maker, if_pos maker.symm]
      omega
    · rw [if_neg maker, if_neg (Ne.symm maker)]
      omega

theorem fillsOf_reject {event : TradeEvent} (refused : event.status = TRADE_STATUS_REJECTED) (past : List TradeEvent) :
    (fun id => fillsOf id (past ++ [event])) = fun id => fillsOf id past := by
  have bad : event.status ≠ TRADE_STATUS_FILL := by
    rw [refused]
    decide
  funext id
  rw [fillsOf_append, fillsOf_cons, fillsOf_nil, TradeEvent.fillOf, if_neg bad, Nat.add_zero]

theorem Table.handle {event : TradeEvent} (table : Table s (fun id => fillsOf id past) past)
    (status : event.status = TRADE_STATUS_FILL ∨ event.status = TRADE_STATUS_REJECTED) :
    Table (s.handle event) (fun id => fillsOf id (past ++ [event])) (past ++ [event]) := by
  have longer : past ⊆ past ++ [event] := List.subset_append_left past [event]
  rw [MarketMaker.handle]
  split
  · rename_i refused
    rw [fillsOf_reject refused]
    refine (table.mono (fun _ => Nat.le_refl _) longer).erase rfl rfl rfl (List.Subset.refl _) rfl ?_
    intro o _ _ same
    refine .inr (.inr ⟨event, List.mem_append_right _ List.mem_cons_self, ?_, same.symm⟩)
    rw [refused]
    decide
  · rename_i taken
    rw [fillsOf_fill (status.resolve_right taken)]
    exact ((table.fill event.takerId event.quantity).fill event.makerId event.quantity).mono (fun _ => Nat.le_refl _) longer

def handled (s : MarketMaker) : List TradeEvent := s.events.take s.heard

theorem handled_listen {event : TradeEvent} (next : s.events[s.heard]? = some event) :
    handled { s.handle event with heard := s.heard + 1 } = s.handled ++ [event] := by
  have events : (s.handle event).events = s.events := by rw [handle_eq]
  rw [handled, events]
  exact take_heard next

theorem handled_execute (executed : s.execute o = some s') (heard : s.heard ≤ s.events.length) :
    s'.handled = s.handled ∧ s'.heard ≤ s'.events.length := by
  rcases execute_eq executed with ⟨b, later, result, -, rfl⟩
  refine ⟨List.take_append_of_le_length heard, ?_⟩
  rw [List.length_append]
  exact Nat.le_add_right_of_le heard

theorem Effect.feed (effect : Effect s s') : s'.events = s.events ∧ s'.heard = s.heard := by
  cases effect with
  | quiet still _ _ => exact ⟨still.events, still.heard⟩
  | sent _ _ _ still _ _ => exact ⟨still.events, still.heard⟩
  | recorded _ _ still _ => exact ⟨still.events, still.heard⟩
  | dropped _ _ still _ => exact ⟨still.events, still.heard⟩

structure Tracked (s : MarketMaker) (cap : Nat) (book : PriceTime.Book) (ladders : Half → Ladder) : Prop where
  exchange : Exchange s cap book ladders
  heard : s.heard ≤ s.events.length
  table : Table s (fun id => fillsOf id s.handled) s.handled

namespace Tracked

variable {cap : Nat} {book : PriceTime.Book} {ladders : Half → Ladder} {a : Action} {event : TradeEvent}

theorem create {maxNodes : Nat} (small : maxNodes * PinNode.CAPACITY < 2 ^ 32) (idCapacity levelCapacity : Nat) :
    Tracked (MarketMaker.create (OrderBook.create maxNodes idCapacity levelCapacity)) (levelCapacity % 2 ^ 32) [] fun _ => [] where
  exchange := Exchange.create small idCapacity levelCapacity
  heard := Nat.le_refl _
  table := Table.create _

theorem fresh (tracked : Tracked s cap book ladders) (unused : x ∉ s.ids) : x ∉ s.recorded := by
  intro entered
  rcases tracked.table.recorded x entered with ⟨o, member, limit, rfl⟩
  exact unused (tracked.exchange.known o (.inl member) (limit_not_cancel limit))

theorem unique (tracked : Tracked s cap book ladders) (waits : s.pending = some o) {p : Order} (member : p ∈ s.sent)
    (type : p.type ≠ OrderType.CANCEL) (same : p.id = o.id) : p = o := by
  have kind : o.type ≠ OrderType.CANCEL := limit_not_cancel (pending_quote waits).1
  exact tracked.exchange.unique member (tracked.table.pending o waits).1 type kind same

theorem effect (tracked : Tracked s cap book ladders) (effect : Effect s s') :
    Table s' (fun id => fillsOf id s.handled) s.handled := by
  have table := tracked.table
  cases effect with
  | quiet still before after =>
    exact table.congr still.orders still.sent still.recorded still.dropped (after.trans before.symm)
  | sent o fresh side still _ after =>
    have unknown : o.type ≠ OrderType.CANCEL → o.id ∉ s.recorded := fun type => tracked.fresh (fresh type)
    exact table.post unknown side still.orders still.sent still.recorded still.dropped after
  | recorded o before still after => exact table.record before (fun _ => tracked.unique before) still after
  | dropped id before still after =>
    have dropped : s'.dropped = id :: s.dropped := still.dropped
    refine table.erase still.orders still.sent still.recorded ?_ (after.trans before.symm) ?_
    · rw [dropped]
      exact List.subset_cons_self id s.dropped
    · intro o _ _ same
      rw [dropped, same]
      exact .inl List.mem_cons_self

theorem step (tracked : Tracked s cap book ladders) (taken : act a s = some s') :
    ∃ book' ladders', Tracked s' cap book' ladders' := by
  rcases tracked.exchange.step taken with ⟨book', ladders', exchange⟩
  suffices kept : s'.heard ≤ s'.events.length ∧ Table s' (fun id => fillsOf id s'.handled) s'.handled by
    exact ⟨book', ladders', exchange, kept.1, kept.2⟩
  cases act_cases taken with
  | main effect =>
    rcases effect.feed with ⟨events, heard⟩
    have same : s'.handled = s.handled := by rw [handled, handled, events, heard]
    rw [same, events, heard]
    exact ⟨tracked.heard, tracked.effect effect⟩
  | deliver o next executed =>
    rcases handled_execute executed tracked.heard with ⟨same, heard⟩
    refine ⟨heard, ?_⟩
    rw [same]
    rcases execute_eq executed with ⟨b, later, result, -, rfl⟩
    exact tracked.table.congr rfl rfl rfl rfl rfl
  | trade o fresh executed =>
    rcases handled_execute executed tracked.heard with ⟨same, heard⟩
    refine ⟨heard, ?_⟩
    rw [same]
    rcases execute_eq executed with ⟨b, later, result, -, rfl⟩
    exact tracked.table.congr rfl rfl rfl rfl rfl
  | listen _ event next eq =>
    subst eq
    rcases List.getElem?_eq_some_iff.mp next with ⟨low, -⟩
    have status := tracked.exchange.traded.statuses event (List.mem_of_getElem? next)
    have events : (s.handle event).events = s.events := by rw [handle_eq]
    rw [handled_listen next, events]
    exact ⟨low, (tracked.table.handle status).congr rfl rfl rfl rfl rfl⟩

theorem along {maxNodes : Nat} {meets : Action → MarketMaker → Prop} {P : MarketMaker → Prop}
    (small : maxNodes * PinNode.CAPACITY < 2 ^ 32) (idCapacity levelCapacity : Nat)
    (base : P (MarketMaker.create (OrderBook.create maxNodes idCapacity levelCapacity)))
    (keeps : ∀ s a s' book ladders, Tracked s (levelCapacity % 2 ^ 32) book ladders → P s → meets a s → act a s = some s' → P s')
    (reach : Transition.ReachableIf MarketMaker.step meets
      (MarketMaker.create (OrderBook.create maxNodes idCapacity levelCapacity)) s) :
    ∃ book ladders, Tracked s (levelCapacity % 2 ^ 32) book ladders ∧ P s := by
  apply reach.invariant (P := fun s => ∃ book ladders, Tracked s (levelCapacity % 2 ^ 32) book ladders ∧ P s)
  · exact ⟨[], fun _ => [], Tracked.create small idCapacity levelCapacity, base⟩
  · rintro s a s' e ⟨book, ladders, tracked, holds⟩ met taken
    rcases Option.map_eq_some_iff.mp taken with ⟨t, acted, eq⟩
    cases eq
    rcases tracked.step acted with ⟨book', ladders', tracked'⟩
    exact ⟨book', ladders', tracked', keeps s a s' book ladders tracked holds met acted⟩

end Tracked

end MarketMaker

end Titan
