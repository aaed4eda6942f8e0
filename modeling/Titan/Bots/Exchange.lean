import Titan.Bots.MarketMaker
import Titan.Book.Fills
import Mathlib.Data.List.Induction
import Mathlib.Data.List.Pairwise

namespace Titan

namespace MarketMaker

variable {s s' s'' : MarketMaker} {a : Action}

structure Still (s s' : MarketMaker) : Prop where
  orders : s'.orders = s.orders
  inventory : s'.inventory = s.inventory
  sent : s'.sent = s.sent
  delivered : s'.delivered = s.delivered
  book : s'.book = s.book
  events : s'.events = s.events
  heard : s'.heard = s.heard
  ids : s'.ids = s.ids
  done : s'.done = s.done
  recorded : s'.recorded = s.recorded
  dropped : s'.dropped = s.dropped

theorem Still.refl (s : MarketMaker) : Still s s := ⟨rfl, rfl, rfl, rfl, rfl, rfl, rfl, rfl, rfl, rfl, rfl⟩

theorem goto_still (s : MarketMaker) (pc : Pc) : Still s (s.goto pc) := ⟨rfl, rfl, rfl, rfl, rfl, rfl, rfl, rfl, rfl, rfl, rfl⟩

theorem toBreaker_still (s : MarketMaker) (live : List (OrderId × Side)) (inv : Int) (mid : PriceTick) :
    Still s (s.toBreaker live inv mid) := by
  cases live <;> exact ⟨rfl, rfl, rfl, rfl, rfl, rfl, rfl, rfl, rfl, rfl, rfl⟩

theorem Still.trans (first : Still s s') (second : Still s' s'') : Still s s'' where
  orders := second.orders.trans first.orders
  inventory := second.inventory.trans first.inventory
  sent := second.sent.trans first.sent
  delivered := second.delivered.trans first.delivered
  book := second.book.trans first.book
  events := second.events.trans first.events
  heard := second.heard.trans first.heard
  ids := second.ids.trans first.ids
  done := second.done.trans first.done
  recorded := second.recorded.trans first.recorded
  dropped := second.dropped.trans first.dropped

theorem takeId_still (s : MarketMaker) : Still s s.takeId.2 := ⟨rfl, rfl, rfl, rfl, rfl, rfl, rfl, rfl, rfl, rfl, rfl⟩

theorem toFire_still (s : MarketMaker) (q : Quote) : Still s (s.toFire q) := by
  have twice : Still s s.takeId.2.takeId.2 := (takeId_still s).trans (takeId_still s.takeId.2)
  simp only [toFire]
  split
  · exact twice.trans (goto_still _ _)
  · exact twice.trans (goto_still _ _)

theorem toCancelAsk_still (s : MarketMaker) (q : Quote) : Still s (s.toCancelAsk q) := by
  rw [toCancelAsk]
  split
  · exact goto_still s _
  · exact toFire_still s q

theorem toCancelBid_still (s : MarketMaker) (q : Quote) : Still s (s.toCancelBid q) := by
  rw [toCancelBid]
  split
  · exact goto_still s _
  · exact toCancelAsk_still s q

/-- The order that is on the wire and not yet in `g_orders`. -/
def pending (s : MarketMaker) : Option Order :=
  match s.pc with
  | .recordBid q bidId _ => some (limitOrder bidId Side.BUY q.bidPx)
  | .recordAsk q _ askId _ => some (limitOrder askId Side.SELL q.askPx)
  | _ => none

theorem toBreaker_pending (s : MarketMaker) (live : List (OrderId × Side)) (inv : Int) (mid : PriceTick) :
    (s.toBreaker live inv mid).pending = none := by
  cases live <;> rfl

theorem toFire_pending (s : MarketMaker) (q : Quote) : (s.toFire q).pending = none := by
  simp only [toFire]
  split <;> rfl

theorem toCancelAsk_pending (s : MarketMaker) (q : Quote) : (s.toCancelAsk q).pending = none := by
  rw [toCancelAsk]
  split
  · rfl
  · exact toFire_pending s q

theorem toCancelBid_pending (s : MarketMaker) (q : Quote) : (s.toCancelBid q).pending = none := by
  rw [toCancelBid]
  split
  · rfl
  · exact toCancelAsk_pending s q

inductive Effect (s s' : MarketMaker) : Prop
  | quiet (still : Still s s') (before : s.pending = none) (after : s'.pending = none)
  | sent (o : Order) (fresh : o.type ≠ OrderType.CANCEL → o.id ∉ s.ids)
      (side : o.type ≠ OrderType.CANCEL → o.side = Side.BUY ∨ o.side = Side.SELL)
      (still : Still { s with sent := s.sent ++ [o], ids := if o.type = OrderType.CANCEL then s.ids else o.id :: s.ids } s')
      (before : s.pending = none) (after : s'.pending = if o.type = OrderType.LIMIT then some o else none)
  | recorded (o : Order) (before : s.pending = some o) (still : Still (s.record o.id o.side o.price) s')
      (after : s'.pending = none)
  | dropped (id : OrderId) (before : s.pending = none) (still : Still (s.drop id) s') (after : s'.pending = none)

theorem post_eq {o : Order} (posted : s.post o = some s') :
    (o.type ≠ OrderType.CANCEL → o.id ∉ s.ids) ∧
      s' = { s with sent := s.sent ++ [o], ids := if o.type = OrderType.CANCEL then s.ids else o.id :: s.ids } := by
  rw [post] at posted
  split at posted
  · rename_i cancel
    cases posted
    refine ⟨fun type => absurd cancel type, ?_⟩
    rw [if_pos cancel]
  · rename_i type
    split at posted
    · cases posted
    · rename_i unused
      cases posted
      refine ⟨fun _ => unused, ?_⟩
      rw [if_neg type]

theorem Effect.of_post {o : Order} {pc : Pc} (before : s.pending = none) (still : Still s s'')
    (side : o.type ≠ OrderType.CANCEL → o.side = Side.BUY ∨ o.side = Side.SELL)
    (posted : (s''.post o).map (·.goto pc) = some s')
    (after : (s''.goto pc).pending = if o.type = OrderType.LIMIT then some o else none) : Effect s s' := by
  rcases Option.map_eq_some_iff.mp posted with ⟨t, call, rfl⟩
  rcases post_eq call with ⟨fresh, rfl⟩
  rw [still.ids] at fresh
  refine .sent o fresh side ⟨still.orders, still.inventory, ?_, still.delivered, still.book, still.events, still.heard, ?_,
    still.done, still.recorded, still.dropped⟩ before after
  · show s''.sent ++ [o] = s.sent ++ [o]
    rw [still.sent]
  · show (if o.type = OrderType.CANCEL then s''.ids else o.id :: s''.ids) = _
    rw [still.ids]

theorem send_effect {ok : Bool} (taken : s.send ok = some s') : Effect s s' := by
  rw [send] at taken
  split at taken
  · rename_i id side live inv mid pc
    have before : s.pending = none := by rw [pending, pc]
    split at taken
    · exact .of_post before (Still.refl s) (fun type => absurd rfl type) taken rfl
    · cases taken
      exact .quiet (toBreaker_still s ..) before (toBreaker_pending s ..)
  · rename_i inv mid pc
    have before : s.pending = none := by rw [pending, pc]
    cases ok with
    | true =>
      refine .of_post before (takeId_still s) (fun _ => ?_) taken rfl
      by_cases long : inv > 0
      · exact .inr (if_pos long)
      · exact .inl (if_neg long)
    | false =>
      cases taken
      exact .quiet ((takeId_still s).trans (goto_still _ _)) before rfl
  · rename_i q pc
    have before : s.pending = none := by rw [pending, pc]
    split at taken
    · exact .of_post before (Still.refl s) (fun type => absurd rfl type) taken rfl
    · cases taken
      exact .quiet (toCancelAsk_still s q) before (toCancelAsk_pending s q)
  · rename_i q pc
    have before : s.pending = none := by rw [pending, pc]
    split at taken
    · exact .of_post before (Still.refl s) (fun type => absurd rfl type) taken rfl
    · cases taken
      exact .quiet (toFire_still s q) before (toFire_pending s q)
  · rename_i q bidId askId pc
    have before : s.pending = none := by rw [pending, pc]
    split at taken
    · exact .of_post before (Still.refl s) (fun _ => .inl rfl) taken (if_pos rfl).symm
    · cases taken
      exact .quiet (goto_still s _) before rfl
  · rename_i q bidId askId ok1 pc
    have before : s.pending = none := by rw [pending, pc]
    split at taken
    · exact .of_post before (Still.refl s) (fun _ => .inr rfl) taken (if_pos rfl).symm
    · cases taken
      exact .quiet ⟨rfl, rfl, rfl, rfl, rfl, rfl, rfl, rfl, rfl, rfl, rfl⟩ before rfl
  · cases taken

theorem update_effect (taken : s.update = some s') : Effect s s' := by
  rw [update] at taken
  split at taken
  · rename_i id live inv mid pc
    cases taken
    exact .dropped id (by rw [pending, pc]) (toBreaker_still _ ..) (toBreaker_pending _ ..)
  · rename_i q pc
    cases taken
    exact .dropped s.curBidId (by rw [pending, pc]) (toCancelAsk_still _ q) (toCancelAsk_pending _ q)
  · rename_i q pc
    cases taken
    exact .dropped s.curAskId (by rw [pending, pc]) (toFire_still _ q) (toFire_pending _ q)
  · rename_i q bidId askId pc
    cases taken
    exact .recorded (limitOrder bidId Side.BUY q.bidPx) (by rw [pending, pc]) (goto_still _ _) rfl
  · rename_i q bidId askId ok1 pc
    have before : s.pending = some (limitOrder askId Side.SELL q.askPx) := by rw [pending, pc]
    split at taken
    · cases taken
      exact .recorded _ before ⟨rfl, rfl, rfl, rfl, rfl, rfl, rfl, rfl, rfl, rfl, rfl⟩ rfl
    · cases taken
      exact .recorded _ before ⟨rfl, rfl, rfl, rfl, rfl, rfl, rfl, rfl, rfl, rfl, rfl⟩ rfl
  · cases taken

theorem pass_effect {mid skew : PriceTick} {due : Bool} (taken : s.pass mid skew due = some s') : Effect s s' := by
  rw [pass] at taken
  split at taken
  · rename_i ready
    have before : s.pending = none := by rw [pending, ready.1]
    split at taken
    · cases taken
      exact .quiet (goto_still s _) before rfl
    · split at taken
      · cases taken
        exact .quiet (toCancelBid_still s _) before (toCancelBid_pending s _)
      · cases taken
        exact .quiet (Still.refl s) before before
  · cases taken

theorem walk_effect {live : List (OrderId × Side)} (taken : s.walk live = some s') : Effect s s' := by
  rw [walk] at taken
  split at taken
  · rename_i inv mid pc
    have before : s.pending = none := by rw [pending, pc]
    split at taken
    · cases taken
      exact .quiet (toBreaker_still s ..) before (toBreaker_pending s ..)
    · cases taken
  · cases taken

theorem connect_effect {ok : Bool} (taken : act (.connect ok) s = some s') : Effect s s' := by
  rw [act] at taken
  split at taken
  · rename_i ready
    have before : s.pending = none := by rw [pending, ready.1]
    cases taken
    exact .quiet ⟨rfl, rfl, rfl, rfl, rfl, rfl, rfl, rfl, rfl, rfl, rfl⟩ before before
  · cases taken

theorem deliver_cases (taken : act .deliver s = some s') : ∃ o, s.sent[s.delivered]? = some o ∧
    ({ s with delivered := s.delivered + 1 } : MarketMaker).execute o = some s' := by
  rw [act] at taken
  split at taken
  · cases taken
  · rename_i o next
    exact ⟨o, next, taken⟩

theorem trade_cases {o : Order} (taken : act (.trade o) s = some s') : (o.type ≠ OrderType.CANCEL → o.id ∉ s.ids) ∧
    ({ s with ids := if o.type = OrderType.CANCEL then s.ids else o.id :: s.ids } : MarketMaker).execute o = some s' := by
  rw [act] at taken
  split at taken
  · rename_i cancel
    refine ⟨fun type => absurd cancel type, ?_⟩
    rw [if_pos cancel]
    exact taken
  · rename_i type
    split at taken
    · cases taken
    · rename_i unused
      refine ⟨fun _ => unused, ?_⟩
      rw [if_neg type]
      exact taken

theorem listen_cases (taken : act .listen s = some s') :
    ∃ event, s.events[s.heard]? = some event ∧ s' = { s.handle event with heard := s.heard + 1 } := by
  rw [act] at taken
  split at taken
  · cases taken
  · rename_i event next
    cases taken
    exact ⟨event, next, rfl⟩

inductive Step (a : Action) (s s' : MarketMaker) : Prop
  | main (effect : Effect s s')
  | deliver (o : Order) (next : s.sent[s.delivered]? = some o)
      (executed : ({ s with delivered := s.delivered + 1 } : MarketMaker).execute o = some s')
  | trade (o : Order) (fresh : o.type ≠ OrderType.CANCEL → o.id ∉ s.ids)
      (executed : ({ s with ids := if o.type = OrderType.CANCEL then s.ids else o.id :: s.ids } : MarketMaker).execute o = some s')
  | listen (label : a = .listen) (event : TradeEvent) (next : s.events[s.heard]? = some event)
      (eq : s' = { s.handle event with heard := s.heard + 1 })

theorem act_cases (taken : act a s = some s') : Step a s s' := by
  cases a with
  | connect ok => exact .main (connect_effect taken)
  | pass mid skew due => exact .main (pass_effect taken)
  | walk live => exact .main (walk_effect taken)
  | send ok => exact .main (send_effect taken)
  | update => exact .main (update_effect taken)
  | deliver =>
    rcases deliver_cases taken with ⟨o, next, executed⟩
    exact .deliver o next executed
  | trade o => exact .trade o (trade_cases taken).1 (trade_cases taken).2
  | listen =>
    rcases listen_cases taken with ⟨event, next, eq⟩
    exact .listen rfl event next eq

/-- The quotes that a sequence of messages leaves uncancelled. -/
def stand (quotes : List Order) (o : Order) : List Order :=
  if o.type = OrderType.LIMIT then quotes ++ [o]
  else if o.type = OrderType.CANCEL then quotes.filter fun quote => quote.id ≠ o.id
  else quotes

def standing (messages : List Order) : List Order := messages.foldl stand []

theorem standing_concat (messages : List Order) (o : Order) : standing (messages ++ [o]) = stand (standing messages) o := by
  rw [standing, List.foldl_append]
  rfl

theorem mem_standing {messages : List Order} {o : Order} (member : o ∈ standing messages) :
    o ∈ messages ∧ o.type = OrderType.LIMIT := by
  induction messages using List.reverseRecOn with
  | nil => cases member
  | append_singleton messages last ih =>
    rw [standing_concat, stand] at member
    have old : o ∈ standing messages → o ∈ messages ++ [last] ∧ o.type = OrderType.LIMIT := fun member =>
      ⟨List.mem_append_left _ (ih member).1, (ih member).2⟩
    split at member
    · rename_i limit
      rcases List.mem_append.mp member with before | now
      · exact old before
      · rw [List.mem_singleton.mp now]
        exact ⟨List.mem_append_right _ List.mem_cons_self, limit⟩
    · split at member
      · exact old (List.mem_of_mem_filter member)
      · exact old member

/-- The engine has executed what was sent first, no two orders share an id, and an order of the
    bot that rests has not been cancelled by what the engine has executed. -/
structure Exchange (s : MarketMaker) (cap : Nat) (book : PriceTime.Book) (ladders : Half → Ladder) : Prop where
  traded : Traded s.book cap s.done s.events book ladders
  delivered : s.delivered ≤ s.sent.length
  executed : ∀ o ∈ s.sent.take s.delivered, o ∈ s.done
  waiting : ∀ o ∈ s.sent.drop s.delivered, o.type ≠ OrderType.CANCEL → ∀ d ∈ s.done, d.type ≠ OrderType.CANCEL → d.id ≠ o.id
  known : ∀ o, o ∈ s.sent ∨ o ∈ s.done → o.type ≠ OrderType.CANCEL → o.id ∈ s.ids
  distinct : s.sent.Pairwise fun o later => o.type ≠ OrderType.CANCEL → later.type ≠ OrderType.CANCEL → o.id ≠ later.id
  resting : ∀ o ∈ s.sent, o.type ≠ OrderType.CANCEL → PriceTime.live book o.id = true →
    ∃ quote ∈ standing (s.sent.take s.delivered), quote.id = o.id

variable {cap : Nat} {book : PriceTime.Book} {ladders : Half → Ladder}

theorem Exchange.create {maxNodes : Nat} (small : maxNodes * PinNode.CAPACITY < 2 ^ 32) (idCapacity levelCapacity : Nat) :
    Exchange (MarketMaker.create (OrderBook.create maxNodes idCapacity levelCapacity)) (levelCapacity % 2 ^ 32) [] fun _ => [] := by
  refine ⟨Traded.create small idCapacity levelCapacity, Nat.le_refl _, ?_, ?_, ?_, List.Pairwise.nil, ?_⟩
  · intro o member
    cases member
  · intro o member
    cases member
  · rintro o (member | member)
    · cases member
    · cases member
  · intro o member
    cases member

theorem Exchange.congr (exchange : Exchange s cap book ladders) (sent : s'.sent = s.sent) (delivered : s'.delivered = s.delivered)
    (same : s'.book = s.book) (events : s'.events = s.events) (ids : s'.ids = s.ids) (done : s'.done = s.done) :
    Exchange s' cap book ladders := by
  constructor
  · rw [same, done, events]
    exact exchange.traded
  · rw [delivered, sent]
    exact exchange.delivered
  · rw [sent, delivered, done]
    exact exchange.executed
  · rw [sent, delivered, done]
    exact exchange.waiting
  · rw [sent, done, ids]
    exact exchange.known
  · rw [sent]
    exact exchange.distinct
  · rw [sent, delivered]
    exact exchange.resting

theorem Exchange.still (exchange : Exchange s cap book ladders) (still : Still s s') : Exchange s' cap book ladders :=
  exchange.congr still.sent still.delivered still.book still.events still.ids still.done

theorem Exchange.unseen (exchange : Exchange s cap book ladders) {id : OrderId} (unused : id ∉ s.ids) :
    PriceTime.live book id = false ∧ fillsOf id s.events = 0 := by
  apply exchange.traded.unseen
  rintro o member type rfl
  exact unused (exchange.known o (.inr member) type)

theorem Exchange.unique (exchange : Exchange s cap book ladders) {o p : Order} (member : p ∈ s.sent) (other : o ∈ s.sent)
    (type : p.type ≠ OrderType.CANCEL) (kind : o.type ≠ OrderType.CANCEL) (same : p.id = o.id) : p = o := by
  have symmetric : Std.Symm fun o later : Order =>
      o.type ≠ OrderType.CANCEL → later.type ≠ OrderType.CANCEL → o.id ≠ later.id :=
    ⟨fun _ _ distinct type kind same => distinct kind type same.symm⟩
  by_contra apart
  exact exchange.distinct.forall member other apart type kind same

theorem Exchange.fills_le (exchange : Exchange s cap book ladders) {o : Order} (member : o ∈ s.sent)
    (type : o.type ≠ OrderType.CANCEL) : fillsOf o.id s.events + PriceTime.held book o.id ≤ o.remaining.toNat := by
  rw [← List.take_append_drop s.delivered s.sent] at member
  rcases List.mem_append.mp member with executed | waits
  · exact exchange.traded.within o (exchange.executed o executed) type
  · have unseen := exchange.traded.unseen o.id (exchange.waiting o waits type)
    rw [unseen.2, PriceTime.held_dead unseen.1]
    exact Nat.zero_le _

theorem ids_grow (o : Order) {id : OrderId} (member : id ∈ s.ids) :
    id ∈ (if o.type = OrderType.CANCEL then s.ids else o.id :: s.ids) := by
  split
  · exact member
  · exact List.mem_cons_of_mem _ member

theorem Exchange.post (exchange : Exchange s cap book ladders) {o : Order} (fresh : o.type ≠ OrderType.CANCEL → o.id ∉ s.ids) :
    Exchange { s with sent := s.sent ++ [o], ids := if o.type = OrderType.CANCEL then s.ids else o.id :: s.ids } cap book ladders := by
  have prior : (s.sent ++ [o]).take s.delivered = s.sent.take s.delivered := List.take_append_of_le_length exchange.delivered
  refine ⟨exchange.traded, ?_, ?_, ?_, ?_, ?_, ?_⟩
  · rw [List.length_append]
    exact Nat.le_add_right_of_le exchange.delivered
  · rw [prior]
    exact exchange.executed
  · rw [List.drop_append_of_le_length exchange.delivered]
    intro p member type d held kind
    rcases List.mem_append.mp member with old | new
    · exact exchange.waiting p old type d held kind
    · rw [List.mem_singleton.mp new] at type ⊢
      exact fun same => fresh type (same ▸ exchange.known d (.inr held) kind)
  · rintro p (member | member) type
    · rcases List.mem_append.mp member with old | new
      · exact ids_grow o (exchange.known p (.inl old) type)
      · rw [List.mem_singleton.mp new] at type ⊢
        rw [if_neg type]
        exact List.mem_cons_self
    · exact ids_grow o (exchange.known p (.inr member) type)
  · rw [List.pairwise_append]
    refine ⟨exchange.distinct, List.pairwise_singleton .., ?_⟩
    intro p member q last type kind same
    rw [List.mem_singleton.mp last] at same kind
    exact fresh kind (same ▸ exchange.known p (.inl member) type)
  · rw [prior]
    intro p member type alive
    rcases List.mem_append.mp member with old | new
    · exact exchange.resting p old type alive
    · rw [List.mem_singleton.mp new] at alive type
      rw [(exchange.unseen (fresh type)).1] at alive
      cases alive

theorem stand_mem {quotes : List Order} {o quote : Order} (member : quote ∈ quotes)
    (spared : ¬(o.type = OrderType.CANCEL ∧ o.id = quote.id)) : quote ∈ stand quotes o := by
  rw [stand]
  split
  · exact List.mem_append_left _ member
  · split
    · rename_i cancel
      exact List.mem_filter.mpr ⟨member, by simpa using fun same : quote.id = o.id => spared ⟨cancel, same.symm⟩⟩
    · exact member

theorem execute_eq {o : Order} (executed : s.execute o = some s') : ∃ b later result,
    Matcher.submit s.book o = some (b, later, result) ∧
      s' = { s with book := b, events := s.events ++ later, done := s.done ++ [o] } := by
  rcases Option.bind_eq_some_iff.mp executed with ⟨⟨b, later, result⟩, call, eq⟩
  cases eq
  exact ⟨b, later, result, call, rfl⟩

theorem Exchange.deliver (exchange : Exchange s cap book ladders) {o : Order} (next : s.sent[s.delivered]? = some o)
    (executed : ({ s with delivered := s.delivered + 1 } : MarketMaker).execute o = some s') :
    ∃ book' ladders', Exchange s' cap book' ladders' := by
  rcases List.getElem?_eq_some_iff.mp next with ⟨low, here⟩
  have before : s.sent.take (s.delivered + 1) = s.sent.take s.delivered ++ [o] := by
    rw [List.take_add_one, next]
    rfl
  have after : s.sent.drop s.delivered = o :: s.sent.drop (s.delivered + 1) := by
    rw [List.drop_eq_getElem_cons low, here]
  have sent : o ∈ s.sent := List.mem_of_getElem? next
  rcases execute_eq executed with ⟨b, later, result, call, rfl⟩
  have fresh : o.type ≠ OrderType.CANCEL → ∀ d ∈ s.done, d.type ≠ OrderType.CANCEL → d.id ≠ o.id :=
    exchange.waiting o (after ▸ List.mem_cons_self)
  rcases exchange.traded.execute fresh call with ⟨book', ladders', traded, lives⟩
  refine ⟨book', ladders', traded, low, ?_, ?_, ?_, exchange.distinct, ?_⟩
  · rw [before]
    intro p member
    rcases List.mem_append.mp member with old | new
    · exact List.mem_append_left _ (exchange.executed p old)
    · exact List.mem_append_right _ new
  · intro p member type d held kind
    rcases List.mem_append.mp held with old | new
    · exact exchange.waiting p (after ▸ List.mem_cons_of_mem _ member) type d old kind
    · rw [List.mem_singleton.mp new] at kind ⊢
      have distinct := exchange.distinct
      rw [← List.take_append_drop s.delivered s.sent, after, List.pairwise_append, List.pairwise_cons] at distinct
      exact distinct.2.1.1 p member kind type
  · rintro p (member | member) type
    · exact exchange.known p (.inl member) type
    · rcases List.mem_append.mp member with old | new
      · exact exchange.known p (.inr old) type
      · rw [List.mem_singleton.mp new] at type ⊢
        exact exchange.known o (.inl sent) type
  · rw [before, standing_concat]
    intro p member type alive
    rcases lives p.id alive with ⟨old, spared⟩ | ⟨same, limit⟩
    · rcases exchange.resting p member type old with ⟨quote, stands, named⟩
      exact ⟨quote, stand_mem stands fun both => spared ⟨both.1, both.2.trans named⟩, named⟩
    · refine ⟨o, ?_, same⟩
      rw [stand, if_pos limit]
      exact List.mem_append_right _ List.mem_cons_self

theorem Exchange.trade (exchange : Exchange s cap book ladders) {o : Order} (fresh : o.type ≠ OrderType.CANCEL → o.id ∉ s.ids)
    (executed : ({ s with ids := if o.type = OrderType.CANCEL then s.ids else o.id :: s.ids } : MarketMaker).execute o = some s') :
    ∃ book' ladders', Exchange s' cap book' ladders' := by
  rcases execute_eq executed with ⟨b, later, result, call, rfl⟩
  have new : o.type ≠ OrderType.CANCEL → ∀ d ∈ s.done, d.type ≠ OrderType.CANCEL → d.id ≠ o.id := by
    intro type d held kind same
    exact fresh type (same ▸ exchange.known d (.inr held) kind)
  rcases exchange.traded.execute new call with ⟨book', ladders', traded, lives⟩
  refine ⟨book', ladders', traded, exchange.delivered, ?_, ?_, ?_, exchange.distinct, ?_⟩
  · intro p member
    exact List.mem_append_left _ (exchange.executed p member)
  · intro p member type d held kind
    rcases List.mem_append.mp held with old | last
    · exact exchange.waiting p member type d old kind
    · rw [List.mem_singleton.mp last] at kind ⊢
      exact fun same => fresh kind (same ▸ exchange.known p (.inl (List.mem_of_mem_drop member)) type)
  · rintro p (member | member) type
    · exact ids_grow o (exchange.known p (.inl member) type)
    · rcases List.mem_append.mp member with old | last
      · exact ids_grow o (exchange.known p (.inr old) type)
      · rw [List.mem_singleton.mp last] at type ⊢
        rw [if_neg type]
        exact List.mem_cons_self
  · intro p member type alive
    rcases lives p.id alive with ⟨old, -⟩ | ⟨same, limit⟩
    · exact exchange.resting p member type old
    · exact absurd (exchange.known p (.inl member) type) (same ▸ fresh (limit_not_cancel limit))

theorem applyFill_cases (s : MarketMaker) (id : OrderId) (q : Qty) :
    (s.orders.find id = none ∨ q = 0) ∧ s.applyFill id q = s ∨
      ∃ entry, s.orders.find id = some entry ∧ q ≠ 0 ∧ s.applyFill id q =
        { s with
          inventory := if entry.side = Side.BUY then s.inventory + (takeOf q entry.remaining).toNat
            else s.inventory - (takeOf q entry.remaining).toNat
          orders := if entry.remaining - takeOf q entry.remaining = 0 then s.orders.erase id
            else s.orders.set id { entry with remaining := entry.remaining - takeOf q entry.remaining } } := by
  rw [applyFill]
  split
  · rename_i missing
    exact .inl ⟨.inl missing, rfl⟩
  · rename_i entry found
    split
    · rename_i none
      exact .inl ⟨.inr none, rfl⟩
    · rename_i some
      refine .inr ⟨entry, found, some, ?_⟩
      dsimp only
      split <;> rfl

theorem applyFill_eq (s : MarketMaker) (id : OrderId) (q : Qty) :
    s.applyFill id q = { s with orders := (s.applyFill id q).orders, inventory := (s.applyFill id q).inventory } := by
  rcases s.applyFill_cases id q with ⟨-, same⟩ | ⟨entry, -, -, eq⟩
  · rw [same]
  · rw [eq]

theorem handle_eq (s : MarketMaker) (event : TradeEvent) :
    s.handle event = { s with orders := (s.handle event).orders, inventory := (s.handle event).inventory } := by
  rw [handle]
  split
  · rfl
  · rw [(s.applyFill event.takerId event.quantity).applyFill_eq, s.applyFill_eq]

theorem Exchange.step (exchange : Exchange s cap book ladders) (taken : act a s = some s') :
    ∃ book' ladders', Exchange s' cap book' ladders' := by
  cases act_cases taken with
  | main effect =>
    refine ⟨book, ladders, ?_⟩
    cases effect with
    | quiet still _ _ => exact exchange.still still
    | sent o fresh _ still _ _ => exact (exchange.post fresh).still still
    | recorded o _ still _ => exact (exchange.congr rfl rfl rfl rfl rfl rfl : Exchange (s.record ..) ..).still still
    | dropped id _ still _ => exact (exchange.congr rfl rfl rfl rfl rfl rfl : Exchange (s.drop id) ..).still still
  | deliver o next executed => exact exchange.deliver next executed
  | trade o fresh executed => exact exchange.trade fresh executed
  | listen _ event next eq =>
    rw [eq, handle_eq]
    exact ⟨book, ladders, exchange.congr rfl rfl rfl rfl rfl rfl⟩

end MarketMaker

end Titan
