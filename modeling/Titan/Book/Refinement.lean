import Titan.Book.NodePool
import Titan.Book.Priority

namespace Titan

open RedBlack Linked PinNode
open RBPriceIndex (NIL)

def PinNode.orders (n : PinNode) : List Order := (trace n.nextInTime NIL_SLOT CAPACITY n.headSlot).map n.slots

namespace OrderBook

variable {b b' : OrderBook} {cap : Nat} {L : Layout} {h : Half} {ladders : Half → Ladder} {book : PriceTime.Book} {o : Order}

def queueAt (b : OrderBook) (h : Half) (price : PriceTick) : List Order :=
  match (b.maps h).find price with
  | none => []
  | some i =>
    if i = NIL then []
    else (trace (fun n => (b.nodes n).next) INVALID_INDEX b.nodeCount (b.level h i).head).flatMap fun n => (b.nodes n).orders

/-- What a reader finds in the book: the queue of every price, and the ids that are live. -/
structure Shows (b : OrderBook) (book : PriceTime.Book) : Prop where
  queues : ∀ h price, (b.queueAt h price).map Resting.of = book.filter fun r => decide (r.side = h ∧ r.price = price)
  live : ∀ id : OrderId, (b.locators id.toNat).node ≠ INVALID_INDEX ↔ PriceTime.live book id = true

theorem orders_eq {n : PinNode} {q : List Nat} (queued : Queued n q) : n.orders = q.map n.slots := by
  have walk := queued.thread.walk queued.nil_not_mem
  rw [PinNode.orders, queued.head, walk.trace_eq (Stock.length_le_capacity queued)]

theorem Rep.queueAt_present (rep : Rep b cap L) {i : Nat} (member : i ∈ (L.tree h).inorder) :
    b.queueAt h ((b.maps h).key i) = (L.chain h i).queue b.nodes := by
  have stock := rep.focus member
  have real : i ≠ NIL := rep.cell_ne_nil member
  have each : ∀ chain : Chain, (∀ n q, (n, q) ∈ chain → Queued (b.nodes n) q) →
      (chain.map Prod.fst).flatMap (fun n => (b.nodes n).orders) = chain.queue b.nodes := by
    intro chain queued
    induction chain with
    | nil => rfl
    | cons block rest ih =>
      rcases block with ⟨n, q⟩
      rw [List.map_cons, List.flatMap_cons, Chain.queue_cons, orders_eq (queued n q List.mem_cons_self),
        ih fun n q inside => queued n q (List.mem_cons_of_mem _ inside)]
  rw [queueAt, rep.find_eq member]
  simp only [if_neg real]
  rw [← chainOf, rep.chainOf_eq member]
  exact each _ fun n q inside => stock.queued n q (List.mem_append_left _ inside)

theorem Settled.priced (settled : Settled b cap ladders) (h : Half) : Ladder.Priced (ladders h) := by
  rcases settled.rep with ⟨L, rep, rfl⟩
  intro rung member o held
  rcases List.mem_map.mp member with ⟨i, inside, rfl⟩
  exact ((rep.levels h i inside).home o held).1

theorem Settled.sorted (settled : Settled b cap ladders) (h : Half) :
    (ladders h).Pairwise fun rung later => h.compare.before rung.1 later.1 = true := by
  rcases settled.rep with ⟨L, rep, rfl⟩
  have sorted := (rep.valid h).sorted
  rw [rep.order h] at sorted
  exact List.pairwise_map.mpr sorted

theorem Settled.prices_nodup (settled : Settled b cap ladders) (h : Half) : ((ladders h).map Prod.fst).Nodup :=
  List.pairwise_map.mpr ((settled.sorted h).imp fun ordered => Compare.before_ne ordered)

theorem Settled.ranked (settled : Settled b cap ladders) (h : Half) : PriceTime.Ranked h (ladders h).orders := by
  have priced := settled.priced h
  rw [PriceTime.Ranked, Ladder.orders, List.pairwise_flatMap]
  refine ⟨?_, ?_⟩
  · intro rung member
    apply List.pairwise_of_forall_mem_list
    intro o held o' held'
    rw [priced rung member o held, priced rung member o' held']
    exact PriceTime.better_self h _
  · refine (settled.sorted h).imp_of_mem ?_
    intro rung later member member' ordered o held o' held'
    rw [priced rung member o held, priced later member' o' held']
    apply PriceTime.better_asymm
    rw [PriceTime.better_eq_before]
    exact ordered

theorem filter_orders {ladder l₁ l₂ : Ladder} {price : PriceTick} {queue : List Order} (priced : Ladder.Priced ladder)
    (distinct : (ladder.map Prod.fst).Nodup) (split : ladder = l₁ ++ (price, queue) :: l₂) :
    ladder.orders.filter (fun o => decide (o.price = price)) = queue := by
  have absent : ∀ l : Ladder, (∀ rung ∈ l, rung ∈ ladder) → price ∉ l.map Prod.fst →
      l.orders.filter (fun o => decide (o.price = price)) = [] := by
    intro l inside apart
    apply List.filter_eq_nil_iff.mpr
    intro o held same
    rcases List.mem_flatMap.mp held with ⟨rung, member, queued⟩
    rw [decide_eq_true_eq, priced rung (inside rung member) o queued] at same
    exact apart (List.mem_map.mpr ⟨rung, member, same⟩)
  have here : queue.filter (fun o => decide (o.price = price)) = queue := by
    apply List.filter_eq_self.mpr
    intro o held
    exact decide_eq_true (priced (price, queue) (by rw [split]; simp) o held)
  rw [split, List.map_append, List.map_cons, List.perm_middle.nodup_iff, List.nodup_cons, List.mem_append, not_or]
    at distinct
  have before := absent l₁ (fun rung member => by rw [split]; exact List.mem_append_left _ member) distinct.1.1
  have after := absent l₂ (fun rung member => by
    rw [split]
    exact List.mem_append_right _ (List.mem_cons_of_mem _ member)) distinct.1.2
  rw [split, Ladder.orders, List.flatMap_append, List.flatMap_cons, List.filter_append, List.filter_append, here]
  rw [Ladder.orders] at before after
  rw [before, after, List.nil_append, List.append_nil]

theorem Settled.queueAt_eq (settled : Settled b cap ladders) (h : Half) (price : PriceTick) :
    b.queueAt h price = (ladders h).orders.filter fun o => decide (o.price = price) := by
  have priced := settled.priced h
  have distinct := settled.prices_nodup h
  rcases settled.rep with ⟨L, rep, rfl⟩
  rcases RBPriceIndex.find_spec (rep.valid h) price with ⟨i, found, ⟨member, rfl⟩ | ⟨rfl, absent⟩⟩
  · rcases List.append_of_mem member with ⟨l₁, l₂, split⟩
    rw [rep.queueAt_present member, filter_orders priced distinct (Layout.ladder_split b split)]
  · rw [queueAt, found]
    simp only [if_true]
    symm
    apply List.filter_eq_nil_iff.mpr
    intro o held same
    rcases List.mem_flatMap.mp held with ⟨rung, member, queued⟩
    rw [decide_eq_true_eq, priced rung member o queued] at same
    rcases List.mem_map.mp member with ⟨i, inside, rfl⟩
    exact absent i inside same

/-- The reference book that a book stands for. -/
structure Refines (b : OrderBook) (cap : Nat) (book : PriceTime.Book) (ladders : Half → Ladder) : Prop where
  settled : Settled b cap ladders
  sim : PriceTime.Sim book (Ladder.orders ∘ ladders)

theorem Refines.shows (refines : Refines b cap book ladders) : Shows b book where
  queues h price := by
    rw [refines.settled.queueAt_eq, refines.sim.queues]
    rfl
  live id := by
    rcases refines.settled.rep with ⟨L, rep, eq⟩
    rw [rep.live_iff, eq]
    exact (refines.sim.live_iff id).symm

theorem withdrawn_orders {ladder ladder' : Ladder} {price : PriceTick} (withdrawn : Ladder.Withdrawn price o ladder ladder') :
    ∃ l₁ l₂, ladder.orders = l₁ ++ o :: l₂ ∧ ladder'.orders = l₁ ++ l₂ := by
  cases withdrawn with
  | kept l₁ q₁ q₂ l₂ rest =>
    refine ⟨Ladder.orders l₁ ++ q₁, q₂ ++ Ladder.orders l₂, ?_, ?_⟩ <;> simp [Ladder.orders]
  | closed l₁ l₂ =>
    refine ⟨Ladder.orders l₁, Ladder.orders l₂, ?_, ?_⟩ <;> simp [Ladder.orders]

theorem placed_orders {ladder ladder' : Ladder} {price : PriceTick} (placed : Ladder.Placed price o ladder ladder')
    (priced : Ladder.Priced ladder) (distinct : (ladder.map Prod.fst).Nodup) :
    ∃ l₁ l₂, ladder.orders = l₁ ++ l₂ ∧ ladder'.orders = l₁ ++ o :: l₂ ∧ ∀ o' ∈ l₂, o'.price ≠ price := by
  cases placed with
  | joined l₁ queue l₂ =>
    refine ⟨Ladder.orders l₁ ++ queue, Ladder.orders l₂, by simp [Ladder.orders], by simp [Ladder.orders], ?_⟩
    intro o' held same
    rcases List.mem_flatMap.mp held with ⟨rung, member, queued⟩
    have inside : rung ∈ l₁ ++ (price, queue) :: l₂ := List.mem_append_right _ (List.mem_cons_of_mem _ member)
    rw [List.map_append, List.map_cons, List.perm_middle.nodup_iff, List.nodup_cons, List.mem_append, not_or] at distinct
    apply distinct.1.2
    rw [← same, priced rung inside o' queued]
    exact List.mem_map.mpr ⟨rung, member, rfl⟩
  | opened l₁ l₂ absent =>
    refine ⟨Ladder.orders l₁, Ladder.orders l₂, by simp [Ladder.orders], by simp [Ladder.orders], ?_⟩
    intro o' held same
    rcases List.mem_flatMap.mp held with ⟨rung, member, queued⟩
    have inside : rung ∈ l₁ ++ l₂ := List.mem_append_right _ member
    rw [priced rung inside o' queued] at same
    exact absent rung inside same

theorem Refines.live_iff (refines : Refines b cap book ladders) (id : OrderId) :
    PriceTime.live book id = true ↔ Live ladders id := refines.sim.live_iff id

theorem Refines.canceled {id : OrderId} {removed : Bool} (refines : Refines b cap book ladders)
    (outcome : Canceled cap ladders id b' removed) :
    removed = PriceTime.live book id ∧ ∃ ladders', Refines b' cap (PriceTime.without book id) ladders' := by
  cases outcome with
  | removed same home withdrawn settled =>
    subst same
    rcases withdrawn_orders withdrawn with ⟨l₁, l₂, before, after⟩
    refine ⟨?_, _, settled, ?_⟩
    · symm
      rw [refines.live_iff]
      exact ⟨_, _, by rw [before]; simp, rfl⟩
    · rw [Function.comp_update, after]
      exact refines.sim.remove before
  | missed dead settled =>
    have gone : PriceTime.live book id = false := by
      rw [← Bool.not_eq_true, refines.live_iff]
      exact dead
    refine ⟨gone.symm, ladders, settled, ?_⟩
    rw [PriceTime.without_of_dead gone]
    exact refines.sim

theorem Refines.admitted {rested : Bool} (refines : Refines b cap book ladders) (some : o.remaining ≠ 0)
    (outcome : Added b cap ladders o b' rested) :
    (PriceTime.enqueue b.slabSize (b.hasRoom (Half.ofSide o.side) o.price) book o).2 = rested ∧
      ∃ ladders', Refines b' cap (PriceTime.enqueue b.slabSize (b.hasRoom (Half.ofSide o.side) o.price) book o).1 ladders' := by
  cases outcome with
  | rested within dead room placed settled =>
    have fresh : PriceTime.live book o.id = false := by
      rw [← Bool.not_eq_true, refines.live_iff]
      exact dead
    rw [PriceTime.enqueue, if_pos ⟨within, fresh, room⟩]
    rcases placed_orders placed (refines.settled.priced _) (refines.settled.prices_nodup _) with
      ⟨l₁, l₂, before, after, last⟩
    refine ⟨rfl, _, settled, ?_⟩
    rw [Function.comp_update, after]
    exact refines.sim.push before rfl last fresh some
  | refused settled _ why =>
    have closed : ¬(o.id.toNat < b.slabSize ∧ PriceTime.live book o.id = false ∧
        b.hasRoom (Half.ofSide o.side) o.price = true) := by
      intro all
      rcases why with high | live | full
      · exact Nat.not_le.mpr all.1 high
      · rw [(refines.live_iff o.id).mpr live] at all
        cases all.2.1
      · rw [full] at all
        cases all.2.2
    rw [PriceTime.enqueue, if_neg closed]
    exact ⟨rfl, ladders, settled, refines.sim⟩

end OrderBook

namespace Matcher

open OrderBook

variable {b b' : OrderBook} {cap : Nat} {ladders : Half → Ladder} {book : PriceTime.Book} {o : Order}

/-- Whether an order still finds a slot once it has crossed. -/
def roomAfterCross (b : OrderBook) (o : Order) : Bool :=
  match ({ book := b, taker := o } : Matcher).crossOpposite with
  | none => false
  | some m => m.book.hasRoom (Half.ofSide o.side) o.price

/-- Crossing level by level is crossing along the list of makers. -/
theorem crossing_flat (settled : Settled b cap ladders) (o : Order) :
    Ladder.crossOrders (decide (o.side = Side.BUY)) o (ladders (Half.ofSide o.side).opposite).orders =
      { left := (crossing ladders o).left.orders
        taker := (crossing ladders o).taker
        events := (crossing ladders o).events } :=
  Ladder.cross_eq_crossOrders _ o _ (settled.priced _) (settled.inhabited _)

theorem cross_refines (refines : Refines b cap book ladders) (o : Order) :
    (PriceTime.cross book.length book o).taker = (crossing ladders o).taker ∧
      (PriceTime.cross book.length book o).events = (crossing ladders o).events ∧
      PriceTime.Sim (PriceTime.cross book.length book o).book (Ladder.orders ∘ crossedLadders ladders o) := by
  have settled := refines.settled
  have crossed := refines.sim.cross_eq book.length _ (refines.sim.length_le _ rfl) o rfl (settled.ranked _)
  rw [Function.comp_apply, crossing_flat settled o] at crossed
  rw [crossedLadders, Function.comp_update]
  exact crossed

theorem submit_refines_of (refines : Refines b cap book ladders) {events : List TradeEvent} {result : MatchResult}
    (outcome : Submitted b cap ladders o b' events result) :
    (PriceTime.submit b.slabSize (roomAfterCross b o) book o).events = events ∧
      (PriceTime.submit b.slabSize (roomAfterCross b o) book o).result = result ∧
      ∃ ladders', Refines b' cap (PriceTime.submit b.slabSize (roomAfterCross b o) book o).book ladders' := by
  rcases cross_refines refines o with ⟨taker, fills, sim⟩
  cases outcome with
  | canceled type outcome =>
    rcases refines.canceled outcome with ⟨removed, refined⟩
    rw [PriceTime.submit, if_pos type]
    exact ⟨rfl, by rw [removed], refined⟩
  | inadmissible type bad settled =>
    rw [PriceTime.submit, if_neg type, if_pos bad]
    exact ⟨rfl, rfl, ladders, refines⟩
  | discarded type good finished settled =>
    have bad : ¬isAdmissible o = false := by simp [good]
    simp only [PriceTime.submit, if_neg type, if_neg bad, fills, taker, if_neg finished]
    exact ⟨trivial, rfl, _, settled, sim⟩
  | @rested m _ rested type good residual call size settled outcome =>
    have bad : ¬isAdmissible o = false := by simp [good]
    have some := residual.1
    rcases Ladder.cross_taker (decide (o.side = Side.BUY)) o (ladders (Half.ofSide o.side).opposite) with ⟨r, same⟩
    have room : roomAfterCross b o =
        m.book.hasRoom (Half.ofSide (crossing ladders o).taker.side) (crossing ladders o).taker.price := by
      rw [roomAfterCross, call, crossing, same]
      rfl
    have crossed : Refines m.book cap (PriceTime.cross book.length book o).book (crossedLadders ladders o) := ⟨settled, sim⟩
    rcases crossed.admitted some outcome with ⟨admitted, refined⟩
    rw [← room, size] at admitted refined
    simp only [PriceTime.submit, if_neg type, if_neg bad, fills, taker, if_pos residual, admitted]
    exact ⟨rfl, rfl, refined⟩

end Matcher

namespace OrderBook

variable {b b' init : OrderBook} {cap : Nat} {ladders : Half → Ladder} {book : PriceTime.Book}

def roomFor (b : OrderBook) : Call → Bool
  | .add o => b.hasRoom (Half.ofSide o.side) o.price
  | .cancel _ => true
  | .submit o => Matcher.roomAfterCross b o

end OrderBook

def PriceTime.step (slabSize : Nat) (room : Bool) : OrderBook.Call → Book → Book × OrderBook.Reply
  | .add o, book => ((enqueue slabSize room book o).1, .added (enqueue slabSize room book o).2)
  | .cancel id, book => (without book id, .canceled (live book id))
  | .submit o, book =>
    let answer := submit slabSize room book o
    (answer.book, .submitted answer.events answer.result)

namespace OrderBook

variable {b b' init : OrderBook} {cap : Nat} {ladders : Half → Ladder} {book : PriceTime.Book}

def Call.Sized : Call → Prop
  | .add o => o.remaining ≠ 0
  | .cancel _ | .submit _ => True

/-- A book beside the list of resting orders that the same calls make of the reference. -/
inductive Coupled (init : OrderBook) : OrderBook → PriceTime.Book → Prop
  | start : Coupled init init []
  | next {b b' : OrderBook} {book : PriceTime.Book} {call : Call} {reply : Reply} (prior : Coupled init b book)
      (sized : call.Sized) (taken : step call b = some (b', reply)) :
      Coupled init b' (PriceTime.step b.slabSize (b.roomFor call) call book).1

theorem step_refines (refines : Refines b cap book ladders) {call : Call} (sized : call.Sized) :
    ∃ b' ladders', step call b = some (b', (PriceTime.step b.slabSize (b.roomFor call) call book).2) ∧
      Refines b' cap (PriceTime.step b.slabSize (b.roomFor call) call book).1 ladders' := by
  cases call with
  | add o =>
    rcases add_spec refines.settled o with ⟨b', rested, call, -, outcome⟩
    rcases refines.admitted sized outcome with ⟨admitted, ladders', refined⟩
    refine ⟨b', ladders', ?_, refined⟩
    rw [step, call, PriceTime.step, roomFor, admitted]
    rfl
  | cancel id =>
    rcases cancel_spec refines.settled id with ⟨b', removed, call, -, outcome⟩
    rcases refines.canceled outcome with ⟨same, ladders', refined⟩
    refine ⟨b', ladders', ?_, refined⟩
    rw [step, call, PriceTime.step, same]
    rfl
  | submit o =>
    rcases Matcher.submit_spec refines.settled o with ⟨b', events, result, call, -, outcome⟩
    rcases Matcher.submit_refines_of refines outcome with ⟨rfl, rfl, ladders', refined⟩
    refine ⟨b', ladders', ?_, refined⟩
    rw [step, call]
    rfl

theorem create_refines {maxNodes : Nat} (small : maxNodes * CAPACITY < 2 ^ 32) (idCapacity levelCapacity : Nat) :
    Refines (create maxNodes idCapacity levelCapacity) (levelCapacity % 2 ^ 32) [] fun _ => [] := by
  refine ⟨create_settled small idCapacity levelCapacity, fun _ _ => rfl, List.nodup_nil, ?_⟩
  intro r member
  cases member

theorem coupled_refines {maxNodes idCapacity levelCapacity : Nat} (small : maxNodes * CAPACITY < 2 ^ 32)
    (coupled : Coupled (create maxNodes idCapacity levelCapacity) b book) :
    ∃ ladders, Refines b (levelCapacity % 2 ^ 32) book ladders := by
  induction coupled with
  | start => exact ⟨_, create_refines small idCapacity levelCapacity⟩
  | next _ sized taken ih =>
    rcases ih with ⟨ladders, refines⟩
    rcases step_refines refines sized with ⟨b₁, ladders', again, refined⟩
    rw [taken] at again
    cases again
    exact ⟨ladders', refined⟩

/-- In every run, whatever order comes next: `submit` emits the events of the reference,
    returns its result, and leaves its book. -/
theorem submit_refines {maxNodes idCapacity levelCapacity : Nat} (small : maxNodes * CAPACITY < 2 ^ 32)
    (coupled : Coupled (create maxNodes idCapacity levelCapacity) b book) (o : Order) :
    Shows b book ∧ ∃ b', Matcher.submit b o = some (b',
        (PriceTime.submit b.slabSize (Matcher.roomAfterCross b o) book o).events,
        (PriceTime.submit b.slabSize (Matcher.roomAfterCross b o) book o).result) ∧
      Shows b' (PriceTime.submit b.slabSize (Matcher.roomAfterCross b o) book o).book := by
  rcases coupled_refines small coupled with ⟨ladders, refines⟩
  rcases Matcher.submit_spec refines.settled o with ⟨b', events, result, call, -, outcome⟩
  rcases Matcher.submit_refines_of refines outcome with ⟨rfl, rfl, ladders', refined⟩
  exact ⟨refines.shows, b', call, refined.shows⟩

theorem submit_refines_one_fill : ∃ b b',
    Coupled (create 1 4 4) b [{ id := 1, side := .asks, price := 100, remaining := 10 }] ∧
      Matcher.submit b buyFive = some (b',
        [{ takerId := 2, makerId := 1, price := 100, feedSeq := 1, quantity := 5, takerSide := 0, status := 0 }],
        { filled := 5, trades := 1 }) ∧
      Shows b' [{ id := 1, side := .asks, price := 100, remaining := 5 }] := by
  have sell : Call.Sized (.add sellTen) := by
    show (10 : Qty) ≠ 0
    decide
  have returned : (step (.add sellTen) (create 1 4 4)).isSome = true := by
    decide +kernel
  rcases Option.isSome_iff_exists.mp returned with ⟨⟨b, reply⟩, taken⟩
  have coupled := Coupled.start.next sell taken
  have small : 1 * CAPACITY < 2 ^ 32 := by decide
  rcases (submit_refines small coupled buyFive).2 with ⟨b', call, shows⟩
  have listed : (PriceTime.step (create 1 4 4).slabSize ((create 1 4 4).roomFor (.add sellTen)) (.add sellTen) []).1 =
      [{ id := 1, side := .asks, price := 100, remaining := 10 }] := by
    decide +kernel
  rw [listed] at coupled call shows
  exact ⟨b, b', coupled, call, shows⟩

end OrderBook

end Titan
