import Titan.Bots.OrderTable

namespace Titan

namespace MarketMaker

variable {s s' : MarketMaker} {f : OrderId → Nat} {past : List TradeEvent} {x : OrderId} {o : Order} {P Q : Order → Prop}

theorem mem_stand {quotes : List Order} {quote : Order} (member : quote ∈ stand quotes o) :
    quote ∈ quotes ∧ ¬(o.type = OrderType.CANCEL ∧ quote.id = o.id) ∨ quote = o ∧ o.type = OrderType.LIMIT := by
  rw [stand] at member
  split at member
  · rename_i limit
    rcases List.mem_append.mp member with old | new
    · exact .inl ⟨old, fun both => limit_not_cancel limit both.1⟩
    · exact .inr ⟨List.mem_singleton.mp new, limit⟩
  · split at member
    · have kept := List.mem_filter.mp member
      exact .inl ⟨kept.1, fun both => of_decide_eq_true kept.2 both.2⟩
    · rename_i kind
      exact .inl ⟨member, fun both => kind both.1⟩

def Over (s : MarketMaker) (o : Order) : Prop := Ended (fun id => fillsOf id s.events) s.events o

theorem Over.grow {later : List TradeEvent} (spent : Over s o) (events : s'.events = s.events ++ later) : Over s' o := by
  rw [Over, events]
  apply Ended.mono spent
  · intro y
    rw [fillsOf_append]
    exact Nat.le_add_right _ _
  · exact List.subset_append_left s.events later

theorem Over.of_handled (ended : Ended (fun id => fillsOf id s.handled) s.handled o) : Over s o := by
  rw [Over, ← List.take_append_drop s.heard s.events]
  apply Ended.mono ended
  · intro y
    rw [fillsOf_append]
    exact Nat.le_add_right _ _
  · exact List.subset_append_left _ _

variable {cap : Nat} {book : PriceTime.Book} {ladders : Half → Ladder}

theorem Exchange.over_dead (exchange : Exchange s cap book ladders) (member : o ∈ s.sent) (type : o.type ≠ OrderType.CANCEL)
    (spent : Over s o) : PriceTime.live book o.id = false := by
  rcases spent with filled | ⟨event, heard, refused, taker⟩
  · by_contra alive
    rw [Bool.not_eq_false] at alive
    rcases List.any_eq_true.mp alive with ⟨r, resting, same⟩
    have within := exchange.fills_le member type
    have held := PriceTime.held_eq exchange.traded.refines.sim.ids resting
    rw [beq_iff_eq.mp same] at held
    dsimp only at filled
    have empty : r.remaining.toNat = 0 := by omega
    exact exchange.traded.refines.sim.alive r resting (UInt32.toNat_inj.mp empty)
  · have dead := (exchange.traded.rejected event heard refused).1
    rwa [taker] at dead

theorem Table.fill_gone (table : Table s f past) (member : o ∈ s.sent) (type : o.type ≠ OrderType.CANCEL)
    (found : s.orders.find o.id ≠ none) (x : OrderId) (q : Qty) :
    (s.applyFill x q).orders.find o.id ≠ none ∨ Ended (credit f x q.toNat) past o := by
  rcases s.applyFill_cases x q with ⟨-, same⟩ | ⟨entry, there, -, eq⟩
  · rw [same]
    exact .inl found
  · rw [eq]
    dsimp only
    split
    · rename_i empty
      rw [MyOrders.find_erase]
      split
      · rename_i same
        exact .inr (table.emptied there empty member type same)
      · exact .inl found
    · rw [MyOrders.find_set]
      split
      · exact .inl (Option.some_ne_none _)
      · exact .inl found

theorem Table.handle_gone {event : TradeEvent} (table : Table s (fun id => fillsOf id past) past)
    (status : event.status = TRADE_STATUS_FILL ∨ event.status = TRADE_STATUS_REJECTED) (member : o ∈ s.sent)
    (type : o.type ≠ OrderType.CANCEL) (found : s.orders.find o.id ≠ none) :
    (s.handle event).orders.find o.id ≠ none ∨ Ended (fun id => fillsOf id (past ++ [event])) (past ++ [event]) o := by
  have longer : past ⊆ past ++ [event] := List.subset_append_left past [event]
  rw [MarketMaker.handle]
  split
  · rename_i refused
    dsimp only
    rw [MyOrders.find_erase]
    split
    · rename_i same
      refine .inr (.inr ⟨event, List.mem_append_right _ List.mem_cons_self, ?_, same.symm⟩)
      rw [refused]
      decide
    · exact .inl found
  · rename_i taken
    rw [fillsOf_fill (status.resolve_right taken)]
    rcases table.fill_gone member type found event.takerId event.quantity with still | ended
    · have sent : (s.applyFill event.takerId event.quantity).sent = s.sent := by rw [applyFill_eq]
      have first := table.fill event.takerId event.quantity
      rcases first.fill_gone (sent ▸ member) type still event.makerId event.quantity with left | ended
      · exact .inl left
      · exact .inr (ended.mono (fun _ => Nat.le_refl _) longer)
    · exact .inr (ended.mono (le_credit _ _ _) longer)

/-- The quotes that stand on the wire are over, or such as the main loop knows them to be. -/
def Covered (s : MarketMaker) (P : Order → Prop) : Prop := ∀ o ∈ standing s.sent, Over s o ∨ P o

theorem Covered.imp (covered : Covered s P) (sent : s'.sent = s.sent) (spent : ∀ o, Over s o → Over s' o)
    (weaker : ∀ o, P o → Q o) : Covered s' Q := by
  rw [Covered, sent]
  intro o member
  exact (covered o member).imp (spent o) (weaker o)

theorem Covered.post (covered : Covered s P) (sent : s'.sent = s.sent ++ [o]) (events : s'.events = s.events)
    (kept : ∀ p, P p → ¬(o.type = OrderType.CANCEL ∧ p.id = o.id) → Q p) (new : o.type = OrderType.LIMIT → Q o) :
    Covered s' Q := by
  rw [Covered, sent, standing_concat]
  intro p member
  have spent : Over s p → Over s' p := fun spent => spent.grow (events.trans (List.append_nil _).symm)
  rcases mem_stand member with ⟨old, spared⟩ | ⟨rfl, limit⟩
  · exact (covered p old).imp spent fun known => kept p known spared
  · exact .inr (new limit)

/-- No two standing quotes of one side are both open, after any number of the messages sent. -/
def Alone (s : MarketMaker) : Prop :=
  ∀ n, ∀ o ∈ standing (s.sent.take n), ∀ p ∈ standing (s.sent.take n), o.side = p.side → o.id = p.id ∨ Over s o ∨ Over s p

theorem Alone.imp (alone : Alone s) (sent : s'.sent = s.sent) (spent : ∀ o, Over s o → Over s' o) : Alone s' := by
  rw [Alone, sent]
  intro n o member p other side
  exact (alone n o member p other side).imp_right fun either => either.imp (spent o) (spent p)

theorem Alone.post (alone : Alone s) (sent : s'.sent = s.sent ++ [o]) (events : s'.events = s.events)
    (clear : o.type = OrderType.LIMIT → ∀ p ∈ standing s.sent, p.side = o.side → Over s p) : Alone s' := by
  have spent : ∀ p, Over s p → Over s' p := fun p spent => spent.grow (events.trans (List.append_nil _).symm)
  intro n p member q other side
  rw [sent] at member other
  -- Only the whole list of messages is new. Every shorter one was there before.
  by_cases short : n ≤ s.sent.length
  · rw [List.take_append_of_le_length short] at member other
    exact (alone n p member q other side).imp_right fun either => either.imp (spent p) (spent q)
  have whole : (s.sent ++ [o]).take n = s.sent ++ [o] := by
    apply List.take_of_length_le
    rw [List.length_append, List.length_singleton]
    omega
  rw [whole, standing_concat] at member other
  rcases mem_stand member with ⟨old, -⟩ | ⟨rfl, limit⟩
  · rcases mem_stand other with ⟨before, -⟩ | ⟨rfl, limit⟩
    · have every := alone s.sent.length p
      rw [List.take_length] at every
      exact (every old q before side).imp_right fun either => either.imp (spent p) (spent q)
    · exact .inr (.inl (spent p (clear limit p old side)))
  · rcases mem_stand other with ⟨before, -⟩ | ⟨rfl, -⟩
    · exact .inr (.inr (spent q (clear limit q before side.symm)))
    · exact .inl rfl

/-- A standing quote is on its way into `g_orders`, or there, or over. -/
def Seen (s : MarketMaker) : Prop := ∀ o ∈ standing s.sent, s.pending = some o ∨ s.orders.find o.id ≠ none ∨ Over s o

theorem Seen.imp (seen : Seen s) (sent : s'.sent = s.sent) (pending : s'.pending = s.pending)
    (orders : ∀ o ∈ standing s.sent, s.orders.find o.id ≠ none → s'.orders.find o.id ≠ none ∨ Over s' o)
    (spent : ∀ o, Over s o → Over s' o) : Seen s' := by
  rw [Seen, sent, pending]
  intro o member
  rcases seen o member with waits | found | ended
  · exact .inl waits
  · exact .inr (orders o member found)
  · exact .inr (.inr (spent o ended))

theorem Seen.effect (seen : Seen s) (effect : Effect s s')
    (gone : ∀ id, s'.dropped = id :: s.dropped → ∀ o ∈ standing s.sent, o.id ≠ id) : Seen s' := by
  have spent : ∀ o, Over s o → Over s' o := fun o spent => spent.grow (effect.feed.1.trans (List.append_nil _).symm)
  cases effect with
  | quiet still before after =>
    have orders : s'.orders = s.orders := still.orders
    refine seen.imp still.sent (after.trans before.symm) ?_ spent
    rw [orders]
    exact fun _ _ found => .inl found
  | sent o _ _ still before after =>
    have sent : s'.sent = s.sent ++ [o] := still.sent
    have orders : s'.orders = s.orders := still.orders
    rw [Seen, sent, standing_concat, orders, after]
    intro p member
    rcases mem_stand member with ⟨old, -⟩ | ⟨rfl, limit⟩
    · rcases seen p old with waits | known
      · rw [before] at waits
        cases waits
      · exact .inr (known.imp_right (spent p))
    · exact .inl (if_pos limit)
  | recorded o before still after =>
    have sent : s'.sent = s.sent := still.sent
    have orders : s'.orders = s.orders.set o.id { side := o.side, price := o.price, remaining := QUOTE_QTY } := still.orders
    rw [Seen, sent, orders]
    intro p member
    rw [MyOrders.find_set]
    split
    · exact .inr (.inl (Option.some_ne_none _))
    · rename_i apart
      rcases seen p member with waits | known
      · rw [before] at waits
        cases waits
        exact absurd rfl apart
      · exact .inr (known.imp_right (spent p))
  | dropped id before still after =>
    have orders : s'.orders = s.orders.erase id := still.orders
    refine seen.imp still.sent (after.trans before.symm) ?_ spent
    rw [orders]
    intro o member found
    rw [MyOrders.find_erase, if_neg (gone id still.dropped o member)]
    exact .inl found

def Current (s : MarketMaker) (o : Order) : Prop := o.id = s.curBidId ∨ o.id = s.curAskId

/-- What the main loop knows of the standing quotes, at each of its places. At an update that
    erases an id, the cancel on the wire has taken the quote away. -/
def Placed (s : MarketMaker) : Prop :=
  match s.pc with
  | .head | .walk .. | .flatten .. | .cancelBid _ | .cancelAsk _ => Covered s s.Current
  | .breaker live _ _ => Covered s fun o => o.id ∈ live.map Prod.fst
  | .breakerErase id live _ _ => (Covered s fun o => o.id ∈ live.map Prod.fst) ∧ ∀ o ∈ standing s.sent, o.id ≠ id
  | .eraseBid _ => Covered s s.Current ∧ ∀ o ∈ standing s.sent, o.id ≠ s.curBidId
  | .eraseAsk _ => Covered s s.Current ∧ ∀ o ∈ standing s.sent, o.id ≠ s.curAskId
  | .fireBid q _ _ => q.bidPx > 0 ∧ Covered s s.Current
  | .recordBid q bidId _ => q.bidPx > 0 ∧ Covered s fun o => o.id = bidId ∧ o.side = Side.BUY
  | .fireAsk q bidId _ ok1 =>
    if q.bidPx > 0 ∧ ok1 = true then Covered s fun o => o.id = bidId ∧ o.side = Side.BUY
    else Covered s s.Current ∧ (q.bidPx > 0 ∨ ok1 = true)
  | .recordAsk q bidId askId ok1 => ok1 = true ∧ Covered s fun o => q.bidPx > 0 ∧ o.id = bidId ∨ o.id = askId

/-- The outcome of a send that the main loop is ready for. A cancel may fail in the breaker if its
    id has left `g_orders`, the first quote of a pass may go out if neither current id is in
    `g_orders`, and the second quote goes out if and only if the first did. -/
def Ready (s : MarketMaker) (ok : Bool) : Pc → Prop
  | .breaker ((id, _) :: _) _ _ => ok = true ∨ s.orders.find id = none
  | .fireBid _ _ _ => ok = true → s.orders.find s.curBidId = none ∧ s.orders.find s.curAskId = none
  | .fireAsk q _ _ ok1 =>
    if q.bidPx > 0 then ok = ok1 else ok = true → s.orders.find s.curBidId = none ∧ s.orders.find s.curAskId = none
  | _ => True

instance (s : MarketMaker) (ok : Bool) (pc : Pc) : Decidable (s.Ready ok pc) :=
  match pc with
  | .breaker ((id, _) :: _) _ _ => inferInstanceAs (Decidable (ok = true ∨ s.orders.find id = none))
  | .fireBid _ _ _ =>
    inferInstanceAs (Decidable (ok = true → s.orders.find s.curBidId = none ∧ s.orders.find s.curAskId = none))
  | .fireAsk q _ _ ok1 => inferInstanceAs (Decidable (if q.bidPx > 0 then ok = ok1
      else ok = true → s.orders.find s.curBidId = none ∧ s.orders.find s.curAskId = none))
  | .breaker [] _ _ | .head | .walk .. | .breakerErase .. | .flatten .. | .cancelBid _ | .eraseBid _ | .cancelAsk _ | .eraseAsk _
  | .recordBid .. | .recordAsk .. => inferInstanceAs (Decidable True)

def Expected : Action → MarketMaker → Prop
  | .send ok, s => s.Ready ok s.pc
  | _, _ => True

instance (a : Action) (s : MarketMaker) : Decidable (Expected a s) :=
  match a with
  | .send ok => inferInstanceAs (Decidable (s.Ready ok s.pc))
  | .connect _ | .pass .. | .walk _ | .update | .deliver | .trade _ | .listen => inferInstanceAs (Decidable True)

theorem takeId_covered (covered : Covered s s.Current) : Covered s.takeId.2 s.takeId.2.Current := covered

theorem toFire_placed (covered : Covered s s.Current) (q : Quote) : Placed (s.toFire q) := by
  have twice := takeId_covered (takeId_covered covered)
  simp only [toFire]
  split
  · rename_i bid
    exact ⟨bid, twice⟩
  · rename_i bid
    rw [Placed]
    exact (if_neg fun both => bid both.1).mpr ⟨twice, .inr rfl⟩

theorem toCancelAsk_placed (covered : Covered s s.Current) (q : Quote) : Placed (s.toCancelAsk q) := by
  rw [toCancelAsk]
  split
  · exact covered
  · exact toFire_placed covered q

theorem toCancelBid_placed (covered : Covered s s.Current) (q : Quote) : Placed (s.toCancelBid q) := by
  rw [toCancelBid]
  split
  · exact covered
  · exact toCancelAsk_placed covered q

theorem toBreaker_placed {live : List (OrderId × Side)} (covered : Covered s fun o => o.id ∈ live.map Prod.fst) (inv : Int)
    (mid : PriceTick) : Placed (s.toBreaker live inv mid) := by
  cases live with
  | nil => exact covered.imp rfl (fun _ spent => spent) fun _ none => absurd none List.not_mem_nil
  | cons entry live => exact covered

theorem Seen.spent (seen : Seen s) (idle : s.pending = none) (member : o ∈ standing s.sent) (missing : s.orders.find o.id = none) :
    Over s o := by
  rcases seen o member with waits | found | spent
  · rw [idle] at waits
    cases waits
  · exact absurd missing found
  · exact spent

theorem Seen.cleared (seen : Seen s) (idle : s.pending = none) (covered : Covered s s.Current)
    (missing : s.orders.find s.curBidId = none ∧ s.orders.find s.curAskId = none) : Covered s fun _ => False := by
  intro o member
  rcases covered o member with spent | bid | ask
  · exact .inl spent
  · exact .inl (seen.spent idle member (bid ▸ missing.1))
  · exact .inl (seen.spent idle member (ask ▸ missing.2))

/-- What a step of the main loop owes: an id is erased when its quote no longer stands, and a quote
    goes out when every standing quote of its side is over. -/
structure Dues (s s' : MarketMaker) : Prop where
  gone : ∀ id, s'.dropped = id :: s.dropped → ∀ o ∈ standing s.sent, o.id ≠ id
  clear : ∀ o, o.type = OrderType.LIMIT → s'.sent = s.sent ++ [o] → ∀ p ∈ standing s.sent, p.side = o.side → Over s p

theorem Dues.of_erase {id : OrderId} (sent : s'.sent = s.sent) (dropped : s'.dropped = id :: s.dropped)
    (gone : ∀ o ∈ standing s.sent, o.id ≠ id) : Dues s s' where
  gone := by
    intro other same
    rw [dropped] at same
    cases same
    exact gone
  clear := by
    intro o _ same
    rw [sent] at same
    exact absurd (congrArg List.length same) (by simp)

theorem Dues.of_same (sent : s'.sent = s.sent) (dropped : s'.dropped = s.dropped) : Dues s s' where
  gone := by
    intro id same
    rw [dropped] at same
    exact absurd (congrArg List.length same) (by simp)
  clear := by
    intro o _ same
    rw [sent] at same
    exact absurd (congrArg List.length same) (by simp)

theorem Dues.of_post {c : Order} (sent : s'.sent = s.sent ++ [c]) (dropped : s'.dropped = s.dropped)
    (clear : c.type = OrderType.LIMIT → ∀ p ∈ standing s.sent, p.side = c.side → Over s p) : Dues s s' where
  gone := by
    intro id same
    rw [dropped] at same
    exact absurd (congrArg List.length same) (by simp)
  clear := by
    intro o limit same
    rw [sent] at same
    cases List.append_cancel_left same
    exact clear limit

theorem update_placed (placed : Placed s) (taken : s.update = some s') : Placed s' ∧ Dues s s' := by
  rw [update] at taken
  rw [Placed] at placed
  split at taken
  · rename_i id live inv mid pc
    rw [pc] at placed
    cases taken
    have still := toBreaker_still (s.drop id) live inv mid
    exact ⟨toBreaker_placed (s := s.drop id) placed.1 inv mid, .of_erase still.sent still.dropped placed.2⟩
  · rename_i q pc
    rw [pc] at placed
    cases taken
    have still := toCancelAsk_still (s.drop s.curBidId) q
    exact ⟨toCancelAsk_placed (s := s.drop s.curBidId) placed.1 q, .of_erase still.sent still.dropped placed.2⟩
  · rename_i q pc
    rw [pc] at placed
    cases taken
    have still := toFire_still (s.drop s.curAskId) q
    exact ⟨toFire_placed (s := s.drop s.curAskId) placed.1 q, .of_erase still.sent still.dropped placed.2⟩
  · rename_i q bidId askId pc
    rw [pc] at placed
    cases taken
    refine ⟨?_, .of_same rfl rfl⟩
    rw [Placed]
    exact (if_pos ⟨placed.1, rfl⟩).mpr placed.2
  · rename_i q bidId askId ok1 pc
    rw [pc] at placed
    rw [if_pos placed.1] at taken
    cases taken
    refine ⟨?_, .of_same rfl rfl⟩
    intro o member
    rcases placed.2 o member with spent | ⟨bid, same⟩ | same
    · exact .inl spent
    · exact .inr (.inl (same.trans (if_pos bid).symm))
    · exact .inr (.inr same)
  · cases taken

theorem posted_eq {pc : Pc} (posted : (s.post o).map (·.goto pc) = some s') : s'.pc = pc ∧ s'.sent = s.sent ++ [o] ∧
    s'.dropped = s.dropped ∧ s'.events = s.events ∧ s'.curBidId = s.curBidId ∧ s'.curAskId = s.curAskId := by
  rcases Option.map_eq_some_iff.mp posted with ⟨t, call, rfl⟩
  rcases post_eq call with ⟨-, rfl⟩
  exact ⟨rfl, rfl, rfl, rfl, rfl, rfl⟩

theorem current_eq (bid : s'.curBidId = s.curBidId) (ask : s'.curAskId = s.curAskId) : s'.Current = s.Current := by
  funext o
  rw [Current, Current, bid, ask]

theorem cancel_not_limit : OrderType.CANCEL ≠ OrderType.LIMIT := by decide

theorem ioc_not_limit : OrderType.IOC ≠ OrderType.LIMIT := by decide

theorem cancel_sent {id : OrderId} {side : Side} {pc : Pc} (covered : Covered s P) (kept : ∀ o, P o → o.id ≠ id → Q o)
    (posted : (s.post (cancelOrder id side)).map (·.goto pc) = some s') :
    (Covered s' Q ∧ ∀ o ∈ standing s'.sent, o.id ≠ id) ∧ Dues s s' := by
  rcases posted_eq posted with ⟨-, sent, dropped, events, -, -⟩
  have gone : ∀ o ∈ standing s'.sent, o.id ≠ id := by
    rw [sent, standing_concat]
    intro o member
    rcases mem_stand member with ⟨-, spared⟩ | ⟨-, limit⟩
    · exact fun same => spared ⟨rfl, same⟩
    · exact absurd limit cancel_not_limit
  refine ⟨⟨covered.post sent events ?_ fun limit => absurd limit cancel_not_limit, gone⟩, ?_⟩
  · exact fun o known spared => kept o known fun same => spared ⟨rfl, same⟩
  · exact .of_post sent dropped fun limit => absurd limit cancel_not_limit

theorem quote_sent {quote : Order} {pc : Pc} (covered : Covered s P) (sides : ∀ p, P p → p.side ≠ quote.side)
    (kept : ∀ p, P p → Q p) (new : Q quote) (posted : (s.post quote).map (·.goto pc) = some s') :
    Covered s' Q ∧ Dues s s' := by
  rcases posted_eq posted with ⟨-, sent, dropped, events, -, -⟩
  refine ⟨covered.post sent events (fun p known _ => kept p known) fun _ => new, .of_post sent dropped ?_⟩
  intro _ p member side
  exact (covered p member).resolve_right fun known => sides p known side

theorem breaker_failed {id : OrderId} {side : Side} {live : List (OrderId × Side)} {inv : Int} {mid : PriceTick}
    (pc : s.pc = .breaker ((id, side) :: live) inv mid) (seen : Seen s) (placed : Placed s) (ready : s.Ready false s.pc) :
    Covered s fun o => o.id ∈ live.map Prod.fst := by
  have idle : s.pending = none := by rw [pending, pc]
  rw [pc] at ready
  rw [Placed, pc] at placed
  have missing : s.orders.find id = none := ready.resolve_left Bool.false_ne_true
  intro o member
  rcases placed o member with spent | listed
  · exact .inl spent
  · rcases List.mem_cons.mp listed with same | later
    · exact .inl (seen.spent idle member (same ▸ missing))
    · exact .inr later

theorem fireBid_sent {q : Quote} {bidId askId : OrderId} (pc : s.pc = .fireBid q bidId askId) (seen : Seen s) (placed : Placed s)
    (ready : s.Ready true s.pc)
    (posted : (s.post (limitOrder bidId Side.BUY q.bidPx)).map (·.goto (.recordBid q bidId askId)) = some s') :
    Placed s' ∧ Dues s s' := by
  have idle : s.pending = none := by rw [pending, pc]
  rw [pc] at ready
  rw [Placed, pc] at placed
  have clear := seen.cleared idle placed.2 (ready rfl)
  rcases quote_sent (Q := fun o => o.id = bidId ∧ o.side = Side.BUY) clear (fun _ none => none.elim) (fun _ none => none.elim)
    ⟨rfl, rfl⟩ posted with ⟨covered, dues⟩
  rw [Placed, (posted_eq posted).1]
  exact ⟨⟨placed.1, covered⟩, dues⟩

theorem fireAsk_sent {q : Quote} {bidId askId : OrderId} {ok1 : Bool} (pc : s.pc = .fireAsk q bidId askId ok1) (seen : Seen s)
    (placed : Placed s) (ready : s.Ready true s.pc)
    (posted : (s.post (limitOrder askId Side.SELL q.askPx)).map (·.goto (.recordAsk q bidId askId ok1)) = some s') :
    Placed s' ∧ Dues s s' := by
  have idle : s.pending = none := by rw [pending, pc]
  rw [pc, Ready] at ready
  rw [Placed, pc] at placed
  dsimp only at placed
  rw [Placed, (posted_eq posted).1]
  by_cases bid : q.bidPx > 0
  · rw [if_pos bid] at ready
    rw [if_pos ⟨bid, ready.symm⟩] at placed
    have sides : ∀ p : Order, p.id = bidId ∧ p.side = Side.BUY → p.side ≠ Side.SELL := by
      intro p known
      rw [known.2]
      decide
    rcases quote_sent (Q := fun o => q.bidPx > 0 ∧ o.id = bidId ∨ o.id = askId) placed sides
      (fun _ known => .inl ⟨bid, known.1⟩) (.inr rfl) posted with ⟨covered, dues⟩
    exact ⟨⟨ready.symm, covered⟩, dues⟩
  · rw [if_neg bid] at ready
    rw [if_neg fun both => bid both.1] at placed
    have clear := seen.cleared idle placed.1 (ready rfl)
    rcases quote_sent (Q := fun o => q.bidPx > 0 ∧ o.id = bidId ∨ o.id = askId) clear (fun _ none => none.elim)
      (fun _ none => none.elim) (.inr rfl) posted with ⟨covered, dues⟩
    exact ⟨⟨placed.2.resolve_left bid, covered⟩, dues⟩

/-- When the second quote fails, the first did not go out either, and the current ids still cover what stands. -/
theorem fireAsk_failed {q : Quote} {bidId askId : OrderId} {ok1 : Bool} (pc : s.pc = .fireAsk q bidId askId ok1)
    (placed : Placed s) (ready : s.Ready false s.pc) : Covered s s.Current := by
  rw [pc, Ready] at ready
  rw [Placed, pc] at placed
  dsimp only at placed
  split at placed
  · rename_i both
    rw [if_pos both.1] at ready
    exact absurd (ready.trans both.2) Bool.false_ne_true
  · exact placed.1

theorem send_placed {ok : Bool} (seen : Seen s) (placed : Placed s) (ready : s.Ready ok s.pc)
    (taken : s.send ok = some s') : Placed s' ∧ Dues s s' := by
  have known := placed
  rw [Placed] at known
  rw [send] at taken
  split at taken
  · rename_i id side live inv mid pc
    rw [pc] at known
    cases ok with
    | true =>
      rw [if_pos rfl] at taken
      have kept : ∀ o : Order, o.id ∈ id :: live.map Prod.fst → o.id ≠ id → o.id ∈ live.map Prod.fst := fun o member apart =>
        (List.mem_cons.mp member).resolve_left apart
      have sent := cancel_sent known kept taken
      rw [Placed, (posted_eq taken).1]
      exact sent
    | false =>
      cases taken
      have still := toBreaker_still s live inv mid
      exact ⟨toBreaker_placed (breaker_failed pc seen placed ready) inv mid, .of_same still.sent still.dropped⟩
  · rename_i inv mid pc
    rw [pc] at known
    have renewed := takeId_covered known
    cases ok with
    | true =>
      rcases posted_eq taken with ⟨here, sent, dropped, events, bid, ask⟩
      have wire : s'.sent = s.sent ++ [flattenOrder s.takeId.1 inv mid] := sent
      refine ⟨?_, .of_post wire dropped fun limit => absurd limit ioc_not_limit⟩
      rw [Placed, here, current_eq bid ask]
      exact renewed.post sent events (fun _ known _ => known) fun limit => absurd limit ioc_not_limit
    | false =>
      cases taken
      exact ⟨renewed, .of_same rfl rfl⟩
  · rename_i q pc
    rw [pc] at known
    cases ok with
    | true =>
      rw [if_pos rfl] at taken
      rcases posted_eq taken with ⟨here, -, -, -, bid, ask⟩
      rw [Placed, here, current_eq bid ask, bid]
      exact cancel_sent known (fun _ known _ => known) taken
    | false =>
      cases taken
      have still := toCancelAsk_still s q
      exact ⟨toCancelAsk_placed known q, .of_same still.sent still.dropped⟩
  · rename_i q pc
    rw [pc] at known
    cases ok with
    | true =>
      rw [if_pos rfl] at taken
      rcases posted_eq taken with ⟨here, -, -, -, bid, ask⟩
      rw [Placed, here, current_eq bid ask, ask]
      exact cancel_sent known (fun _ known _ => known) taken
    | false =>
      cases taken
      have still := toFire_still s q
      exact ⟨toFire_placed known q, .of_same still.sent still.dropped⟩
  · rename_i q bidId askId pc
    rw [pc] at known
    cases ok with
    | true => exact fireBid_sent pc seen placed ready taken
    | false =>
      cases taken
      refine ⟨?_, .of_same rfl rfl⟩
      rw [Placed]
      exact (if_neg fun both => Bool.false_ne_true both.2).mpr ⟨known.2, .inl known.1⟩
  · rename_i q bidId askId ok1 pc
    cases ok with
    | true => exact fireAsk_sent pc seen placed ready taken
    | false =>
      cases taken
      have covered := fireAsk_failed pc placed ready
      exact ⟨covered, .of_same rfl rfl⟩
  · cases taken

theorem pass_placed {mid skew : PriceTick} {due : Bool} (placed : Placed s) (taken : s.pass mid skew due = some s') :
    Placed s' ∧ Dues s s' := by
  rw [pass] at taken
  split at taken
  · rename_i ready
    have covered : Covered s s.Current := by
      rw [Placed, ready.1] at placed
      exact placed
    split at taken
    · cases taken
      exact ⟨covered, .of_same rfl rfl⟩
    · split at taken
      · cases taken
        exact ⟨toCancelBid_placed covered _, .of_same (toCancelBid_still s _).sent (toCancelBid_still s _).dropped⟩
      · cases taken
        exact ⟨placed, .of_same rfl rfl⟩
  · cases taken

theorem walk_placed {live : List (OrderId × Side)} (seen : Seen s) (taken : s.walk live = some s') : Placed s' ∧ Dues s s' := by
  rw [walk] at taken
  split at taken
  · rename_i inv mid pc
    have idle : s.pending = none := by rw [pending, pc]
    split at taken
    · rename_i walked
      cases taken
      have still := toBreaker_still s live inv mid
      refine ⟨toBreaker_placed ?_ inv mid, .of_same still.sent still.dropped⟩
      intro o member
      rcases found : s.orders.find o.id with _ | entry
      · exact .inl (seen.spent idle member found)
      · have listed : (o.id, entry.side) ∈ s.orders.map fun entry => (entry.1, entry.2.side) :=
          List.mem_map.mpr ⟨(o.id, entry), MyOrders.find_some_mem found, rfl⟩
        have same := (List.isPerm_iff.mp walked).mem_iff.mpr listed
        exact .inr (List.mem_map.mpr ⟨_, same, rfl⟩)
    · cases taken
  · cases taken

theorem connect_placed {ok : Bool} (placed : Placed s) (taken : act (.connect ok) s = some s') : Placed s' ∧ Dues s s' := by
  rw [act] at taken
  split at taken
  · cases taken
    exact ⟨placed, .of_same rfl rfl⟩
  · cases taken

theorem Placed.imp (placed : Placed s) (pc : s'.pc = s.pc) (sent : s'.sent = s.sent) (bid : s'.curBidId = s.curBidId)
    (ask : s'.curAskId = s.curAskId) (spent : ∀ o, Over s o → Over s' o) : Placed s' := by
  have kept : ∀ P, Covered s P → Covered s' P := fun P covered => covered.imp sent spent fun _ known => known
  rw [Placed] at placed ⊢
  rw [pc, sent, current_eq bid ask, bid, ask]
  cases here : s.pc with
  | head | walk | flatten | cancelBid | cancelAsk | breaker =>
    rw [here] at placed
    exact kept _ placed
  | breakerErase | eraseBid | eraseAsk =>
    rw [here] at placed
    exact ⟨kept _ placed.1, placed.2⟩
  | fireBid | recordBid | recordAsk =>
    rw [here] at placed
    exact ⟨placed.1, kept _ placed.2⟩
  | fireAsk q bidId askId ok1 =>
    rw [here] at placed
    dsimp only at placed ⊢
    by_cases both : q.bidPx > 0 ∧ ok1 = true
    · rw [if_pos both] at placed ⊢
      exact kept _ placed
    · rw [if_neg both] at placed ⊢
      exact ⟨kept _ placed.1, placed.2⟩

structure Quoting (s : MarketMaker) : Prop where
  seen : Seen s
  alone : Alone s
  placed : Placed s

namespace Quoting

variable {a : Action}

theorem create (book : OrderBook) : Quoting (MarketMaker.create book) where
  seen := by
    intro o member
    cases member
  alone := by
    intro n o member
    rw [MarketMaker.create, List.take_nil] at member
    cases member
  placed := by
    intro o member
    cases member

theorem effect (quoting : Quoting s) (effect : Effect s s') (placed : Placed s') (dues : Dues s s') : Quoting s' := by
  have spent : ∀ o, Over s o → Over s' o := fun o spent => spent.grow (effect.feed.1.trans (List.append_nil _).symm)
  refine ⟨quoting.seen.effect effect dues.gone, ?_, placed⟩
  cases effect with
  | quiet still _ _ => exact quoting.alone.imp still.sent spent
  | sent o _ _ still _ _ => exact quoting.alone.post still.sent still.events fun limit => dues.clear o limit still.sent
  | recorded o _ still _ => exact quoting.alone.imp still.sent spent
  | dropped id _ still _ => exact quoting.alone.imp still.sent spent

theorem carry (quoting : Quoting s) (later : List TradeEvent) (pc : s'.pc = s.pc) (sent : s'.sent = s.sent)
    (bid : s'.curBidId = s.curBidId) (ask : s'.curAskId = s.curAskId) (events : s'.events = s.events ++ later)
    (orders : ∀ o ∈ standing s.sent, s.orders.find o.id ≠ none → s'.orders.find o.id ≠ none ∨ Over s' o) : Quoting s' := by
  have spent : ∀ o, Over s o → Over s' o := fun _ spent => spent.grow events
  have pending : s'.pending = s.pending := by rw [MarketMaker.pending, MarketMaker.pending, pc]
  exact ⟨quoting.seen.imp sent pending orders spent, quoting.alone.imp sent spent, quoting.placed.imp pc sent bid ask spent⟩

theorem listen (quoting : Quoting s) (tracked : Tracked s cap book ladders) {event : TradeEvent}
    (next : s.events[s.heard]? = some event) : Quoting { s.handle event with heard := s.heard + 1 } := by
  have status := tracked.exchange.traded.statuses event (List.mem_of_getElem? next)
  apply quoting.carry []
  · show (s.handle event).pc = s.pc
    rw [handle_eq]
  · show (s.handle event).sent = s.sent
    rw [handle_eq]
  · show (s.handle event).curBidId = s.curBidId
    rw [handle_eq]
  · show (s.handle event).curAskId = s.curAskId
    rw [handle_eq]
  · show (s.handle event).events = s.events ++ []
    rw [handle_eq, List.append_nil]
  · intro o stands found
    rcases mem_standing stands with ⟨member, limit⟩
    rcases tracked.table.handle_gone status member (limit_not_cancel limit) found with still | ended
    · exact .inl still
    · rw [← handled_listen next] at ended
      exact .inr (Over.of_handled ended)

theorem step (quoting : Quoting s) (tracked : Tracked s cap book ladders) (expected : Expected a s) (taken : act a s = some s') :
    Quoting s' := by
  cases a with
  | connect ok =>
    have moved := connect_placed quoting.placed taken
    exact quoting.effect (connect_effect taken) moved.1 moved.2
  | pass mid skew due =>
    have moved := pass_placed quoting.placed taken
    exact quoting.effect (pass_effect taken) moved.1 moved.2
  | walk live =>
    have moved := walk_placed quoting.seen taken
    exact quoting.effect (walk_effect taken) moved.1 moved.2
  | send ok =>
    have moved := send_placed quoting.seen quoting.placed expected taken
    exact quoting.effect (send_effect taken) moved.1 moved.2
  | update =>
    have moved := update_placed quoting.placed taken
    exact quoting.effect (update_effect taken) moved.1 moved.2
  | deliver =>
    rcases deliver_cases taken with ⟨o, -, executed⟩
    rcases execute_eq executed with ⟨b, later, result, -, rfl⟩
    exact quoting.carry later rfl rfl rfl rfl rfl fun _ _ found => .inl found
  | trade o =>
    rcases execute_eq (trade_cases taken).2 with ⟨b, later, result, -, rfl⟩
    exact quoting.carry later rfl rfl rfl rfl rfl fun _ _ found => .inl found
  | listen =>
    rcases listen_cases taken with ⟨event, next, rfl⟩
    exact quoting.listen tracked next

end Quoting

def Rests (s : MarketMaker) (o : Order) : Prop :=
  o ∈ s.sent ∧ o.type ≠ OrderType.CANCEL ∧ (s.book.locators o.id.toNat).node ≠ INVALID_INDEX

theorem Rests.stands (exchange : Exchange s cap book ladders) (rests : Rests s o) :
    o ∈ standing (s.sent.take s.delivered) ∧ ¬Over s o := by
  rcases rests with ⟨member, type, located⟩
  have alive := (exchange.traded.refines.shows.live o.id).mp located
  refine ⟨?_, ?_⟩
  · rcases exchange.resting o member type alive with ⟨quote, stands, same⟩
    rcases mem_standing stands with ⟨inside, limit⟩
    rwa [exchange.unique (List.mem_of_mem_take inside) member (limit_not_cancel limit) type same] at stands
  · intro spent
    rw [exchange.over_dead member type spent] at alive
    cases alive

variable {maxNodes : Nat}

/-- No two orders of the bot rest on one side of the book. -/
theorem one_resting_quote (small : maxNodes * PinNode.CAPACITY < 2 ^ 32) (idCapacity levelCapacity : Nat)
    (reach : Transition.ReachableIf step Expected (create (OrderBook.create maxNodes idCapacity levelCapacity)) s) :
    ∀ o p, s.Rests o → s.Rests p → o.side = p.side → o = p := by
  have keeps : ∀ s a s' book ladders, Tracked s (levelCapacity % 2 ^ 32) book ladders → Quoting s → Expected a s →
      act a s = some s' → Quoting s' := fun s a s' book ladders tracked quoting => quoting.step tracked
  rcases Tracked.along small idCapacity levelCapacity (Quoting.create _) keeps reach with ⟨book, ladders, tracked, quoting⟩
  intro o p first second side
  rcases first.stands tracked.exchange with ⟨stands, open₁⟩
  rcases second.stands tracked.exchange with ⟨there, open₂⟩
  rcases quoting.alone s.delivered o stands p there side with same | spent | spent
  · exact tracked.exchange.unique first.1 second.1 first.2.1 second.2.1 same
  · exact absurd spent open₁
  · exact absurd spent open₂

/-- A pass that fails at both quotes, one that posts them, and one that replaces them. -/
theorem one_resting_quote_replaced : ∃ s : MarketMaker, s.delivered = 6 ∧
    (s.book.locators 1000004).node ≠ INVALID_INDEX ∧ (s.book.locators 1000005).node ≠ INVALID_INDEX ∧
    ∀ o p, s.Rests o → s.Rests p → o.side = p.side → o = p := by
  have ran : (Transition.runIf step Expected [.connect true, .pass 10000 0 false, .send false, .send false, .connect true,
      .pass 10000 0 false, .send true, .update, .send true, .update, .pass 10010 0 true, .send true, .update,
      .send true, .update, .send true, .update, .send true, .update, .deliver, .deliver, .deliver, .deliver, .deliver, .deliver]
      (create (OrderBook.create 4 4194304 8))).map (fun s => (s.delivered,
        decide ((s.book.locators 1000004).node ≠ INVALID_INDEX), decide ((s.book.locators 1000005).node ≠ INVALID_INDEX))) =
      some (6, true, true) := by decide +kernel
  rcases Option.map_eq_some_iff.mp ran with ⟨s, path, seen⟩
  simp only [Prod.mk.injEq, decide_eq_true_eq] at seen
  have alone := one_resting_quote (by decide) 4194304 8 (Transition.ReachableIf.start.run path)
  exact ⟨s, seen.1, seen.2.1, seen.2.2, alone⟩

/-- The bid goes out and the ask does not. After the reconnect the bid is forgotten, and a second one joins it. -/
theorem two_resting_bids : ∃ s : MarketMaker, Transition.Reachable step (create (OrderBook.create 4 4194304 8)) s ∧
    ∃ o p, s.Rests o ∧ s.Rests p ∧ o.side = Side.BUY ∧ p.side = Side.BUY ∧ o ≠ p := by
  let bids : List Order := [limitOrder 1000000 Side.BUY 9995, limitOrder 1000002 Side.BUY 9995]
  have ran : (Transition.run step [.connect true, .pass 10000 0 false, .send true, .update, .send false, .deliver,
      .connect true, .pass 10000 0 false, .send true, .update, .deliver] (create (OrderBook.create 4 4194304 8))).map (fun s =>
        (s.sent, decide ((s.book.locators 1000000).node ≠ INVALID_INDEX), decide ((s.book.locators 1000002).node ≠ INVALID_INDEX))) =
      some (bids, true, true) := by decide +kernel
  rcases Option.map_eq_some_iff.mp ran with ⟨s, path, seen⟩
  simp only [Prod.mk.injEq, decide_eq_true_eq] at seen
  refine ⟨s, Transition.Reachable.start.run path, limitOrder 1000000 Side.BUY 9995, limitOrder 1000002 Side.BUY 9995, ?_, ?_, rfl, rfl, ?_⟩
  · refine ⟨?_, by decide, seen.2.1⟩
    rw [seen.1]
    exact List.mem_cons_self
  · refine ⟨?_, by decide, seen.2.2⟩
    rw [seen.1]
    exact List.mem_cons_of_mem _ List.mem_cons_self
  · decide

end MarketMaker

end Titan
