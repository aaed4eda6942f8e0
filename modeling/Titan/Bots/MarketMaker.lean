import Titan.Book.Matcher
import Titan.Data.Transition

namespace Titan

def HALF_SPREAD : PriceTick := 5
def HALT_INV : Int := 500
def QUOTE_QTY : Qty := 5
def FLATTEN_CHUNK : Qty := 50
def IOC_CROSS : PriceTick := 20
def ID_BASE : OrderId := 1000000
def ID_MAX : OrderId := 4194303

structure MyOrder where
  side : Side
  price : PriceTick
  remaining : Qty
  deriving DecidableEq, Repr

/-- `g_orders`: the ids the bot believes to be live, each once. -/
abbrev MyOrders := List (OrderId × MyOrder)

namespace MyOrders

def find (orders : MyOrders) (id : OrderId) : Option MyOrder := orders.lookup id

def erase (orders : MyOrders) (id : OrderId) : MyOrders := orders.filter fun entry => entry.1 ≠ id

def set (orders : MyOrders) (id : OrderId) (o : MyOrder) : MyOrders := (id, o) :: orders.erase id

variable {orders : MyOrders} {id x : OrderId}

theorem find_cons (y x : OrderId) (o : MyOrder) (rest : MyOrders) :
    find ((y, o) :: rest) x = if x = y then some o else find rest x := by
  rw [find, List.lookup_cons]
  by_cases same : x = y
  · rw [beq_iff_eq.mpr same, if_pos same]
  · rw [beq_eq_false_iff_ne.mpr same, if_neg same]
    rfl

theorem find_erase (orders : MyOrders) (id x : OrderId) : (orders.erase id).find x = if x = id then none else orders.find x := by
  induction orders with
  | nil => exact (ite_self none).symm
  | cons entry rest ih =>
    rcases entry with ⟨y, o⟩
    rw [find_cons]
    by_cases gone : y = id
    · rw [erase, List.filter_cons_of_neg (by simpa using gone), ← erase, ih, gone]
      by_cases same : x = id
      · rw [if_pos same, if_pos same]
      · rw [if_neg same, if_neg same, if_neg same]
    · rw [erase, List.filter_cons_of_pos (by simpa using gone), ← erase, find_cons, ih]
      by_cases same : x = y
      · rw [if_pos same, if_neg (same ▸ gone), if_pos same]
      · rw [if_neg same, if_neg same]

theorem find_set (orders : MyOrders) (id x : OrderId) (o : MyOrder) :
    (orders.set id o).find x = if x = id then some o else orders.find x := by
  rw [set, find_cons, find_erase]
  by_cases same : x = id
  · rw [if_pos same, if_pos same]
  · rw [if_neg same, if_neg same, if_neg same]

theorem find_some_mem {o : MyOrder} (found : orders.find id = some o) : (id, o) ∈ orders := by
  induction orders with
  | nil => cases found
  | cons entry rest ih =>
    rcases entry with ⟨y, p⟩
    rw [find_cons] at found
    split at found
    · rename_i same
      cases found
      rw [same]
      exact List.mem_cons_self
    · exact List.mem_cons_of_mem _ (ih found)

end MyOrders

structure Quote where
  bidPx : PriceTick
  askPx : PriceTick
  deriving DecidableEq, Repr

/-- Where the main loop stands. Each `send`, and each update of `g_orders` under the lock that
    follows a send, is a step of its own. -/
inductive Pc
  | head
  | walk (inv : Int) (mid : PriceTick)
  | breaker (live : List (OrderId × Side)) (inv : Int) (mid : PriceTick)
  | breakerErase (id : OrderId) (live : List (OrderId × Side)) (inv : Int) (mid : PriceTick)
  | flatten (inv : Int) (mid : PriceTick)
  | cancelBid (q : Quote)
  | eraseBid (q : Quote)
  | cancelAsk (q : Quote)
  | eraseAsk (q : Quote)
  | fireBid (q : Quote) (bidId askId : OrderId)
  | recordBid (q : Quote) (bidId askId : OrderId)
  | fireAsk (q : Quote) (bidId askId : OrderId) (ok1 : Bool)
  | recordAsk (q : Quote) (bidId askId : OrderId) (ok1 : Bool)
  deriving DecidableEq, Repr

/-- The bot, the wire and the engine. `sent` is what the bot has sent, of which the engine has
    executed the first `delivered`; `events` is the feed, of which `trade_thread` has handled the
    first `heard`. The last four fields are history: the ids of all orders so far, what the engine
    has executed, and the ids that `fire` has entered in `g_orders` and `cancel_order` has erased. -/
structure MarketMaker where
  orders : MyOrders
  inventory : Int
  nextId : OrderId
  connected : Bool
  curBidId : OrderId
  curAskId : OrderId
  haveQuoted : Bool
  pc : Pc
  sent : List Order
  delivered : Nat
  book : OrderBook
  events : List TradeEvent
  heard : Nat
  ids : List OrderId
  done : List Order
  recorded : List OrderId
  dropped : List OrderId

namespace MarketMaker

def create (book : OrderBook) : MarketMaker where
  orders := []
  inventory := 0
  nextId := ID_BASE
  connected := false
  curBidId := 0
  curAskId := 0
  haveQuoted := false
  pc := .head
  sent := []
  delivered := 0
  book := book
  events := []
  heard := 0
  ids := []
  done := []
  recorded := []
  dropped := []

def goto (s : MarketMaker) (pc : Pc) : MarketMaker := { s with pc := pc }

def limitOrder (id : OrderId) (side : Side) (px : PriceTick) : Order where
  id := id
  seq := 0
  price := px
  quantity := QUOTE_QTY
  remaining := QUOTE_QTY
  side := side
  type := OrderType.LIMIT

/-- The order of `fire` that trades the position back. -/
def flattenOrder (id : OrderId) (inv : Int) (mid : PriceTick) : Order where
  id := id
  seq := 0
  price := if inv > 0 then mid - IOC_CROSS else mid + IOC_CROSS
  quantity := FLATTEN_CHUNK
  remaining := FLATTEN_CHUNK
  side := if inv > 0 then Side.SELL else Side.BUY
  type := OrderType.IOC

def cancelOrder (id : OrderId) (side : Side) : Order where
  id := id
  seq := 0
  price := 0
  quantity := 0
  remaining := 0
  side := side
  type := OrderType.CANCEL

def takeId (s : MarketMaker) : OrderId × MarketMaker :=
  let id := if s.nextId ≥ ID_MAX then ID_BASE else s.nextId
  (id, { s with nextId := id + 1 })

/-- The bytes of an order are on the wire. No id is used twice. -/
def post (s : MarketMaker) (o : Order) : Option MarketMaker :=
  if o.type = OrderType.CANCEL then some { s with sent := s.sent ++ [o] }
  else if o.id ∈ s.ids then none
  else some { s with sent := s.sent ++ [o], ids := o.id :: s.ids }

def record (s : MarketMaker) (id : OrderId) (side : Side) (px : PriceTick) : MarketMaker :=
  { s with
    orders := s.orders.set id { side := side, price := px, remaining := QUOTE_QTY }
    recorded := id :: s.recorded }

def drop (s : MarketMaker) (id : OrderId) : MarketMaker :=
  { s with orders := s.orders.erase id, dropped := id :: s.dropped }

/-- The mass cancel goes on, or the ids are forgotten and the position is traded back. -/
def toBreaker (s : MarketMaker) (live : List (OrderId × Side)) (inv : Int) (mid : PriceTick) : MarketMaker :=
  match live with
  | [] => { s with curBidId := 0, curAskId := 0, haveQuoted := false, pc := .flatten inv mid }
  | _ :: _ => s.goto (.breaker live inv mid)

def toFire (s : MarketMaker) (q : Quote) : MarketMaker :=
  let (bidId, s) := s.takeId
  let (askId, s) := s.takeId
  if q.bidPx > 0 then s.goto (.fireBid q bidId askId) else s.goto (.fireAsk q bidId askId true)

def toCancelAsk (s : MarketMaker) (q : Quote) : MarketMaker :=
  if s.curAskId ≠ 0 then s.goto (.cancelAsk q) else s.toFire q

def toCancelBid (s : MarketMaker) (q : Quote) : MarketMaker :=
  if s.curBidId ≠ 0 then s.goto (.cancelBid q) else s.toCancelAsk q

def reconnect (s : MarketMaker) : MarketMaker := { s with connected := false, pc := .head }

/-- A pass from the head of the loop, with what it reads of the market and the clock. `due` is
    that the mid has moved or the quotes are old. -/
def pass (s : MarketMaker) (mid skew : PriceTick) (due : Bool) : Option MarketMaker :=
  if s.pc = .head ∧ s.connected = true then
    if s.inventory > HALT_INV ∨ s.inventory < -HALT_INV then some (s.goto (.walk s.inventory mid))
    else if s.haveQuoted = false ∨ due = true then
      some (s.toCancelBid { bidPx := mid - skew - HALF_SPREAD, askPx := mid - skew + HALF_SPREAD })
    else some s
  else none

/-- The breaker takes the lock again and lists `g_orders`, in the order of the table. -/
def walk (s : MarketMaker) (live : List (OrderId × Side)) : Option MarketMaker :=
  match s.pc with
  | .walk inv mid =>
    if live.isPerm (s.orders.map fun entry => (entry.1, entry.2.side)) then some (s.toBreaker live inv mid) else none
  | _ => none

def send (s : MarketMaker) (ok : Bool) : Option MarketMaker :=
  match s.pc with
  | .breaker ((id, side) :: live) inv mid =>
    if ok then (s.post (cancelOrder id side)).map (·.goto (.breakerErase id live inv mid)) else some (s.toBreaker live inv mid)
  | .flatten inv mid =>
    let (id, s) := s.takeId
    if ok then (s.post (flattenOrder id inv mid)).map (·.goto .head) else some (s.goto .head)
  | .cancelBid q => if ok then (s.post (cancelOrder s.curBidId Side.BUY)).map (·.goto (.eraseBid q)) else some (s.toCancelAsk q)
  | .cancelAsk q => if ok then (s.post (cancelOrder s.curAskId Side.SELL)).map (·.goto (.eraseAsk q)) else some (s.toFire q)
  | .fireBid q bidId askId =>
    if ok then (s.post (limitOrder bidId Side.BUY q.bidPx)).map (·.goto (.recordBid q bidId askId))
    else some (s.goto (.fireAsk q bidId askId false))
  | .fireAsk q bidId askId ok1 =>
    if ok then (s.post (limitOrder askId Side.SELL q.askPx)).map (·.goto (.recordAsk q bidId askId ok1)) else some s.reconnect
  | _ => none

def update (s : MarketMaker) : Option MarketMaker :=
  match s.pc with
  | .breakerErase id live inv mid => some ((s.drop id).toBreaker live inv mid)
  | .eraseBid q => some ((s.drop s.curBidId).toCancelAsk q)
  | .eraseAsk q => some ((s.drop s.curAskId).toFire q)
  | .recordBid q bidId askId => some ((s.record bidId Side.BUY q.bidPx).goto (.fireAsk q bidId askId true))
  | .recordAsk q bidId askId ok1 =>
    let s := s.record askId Side.SELL q.askPx
    if ok1 then
      some { s with curBidId := if q.bidPx > 0 then bidId else 0, curAskId := askId, haveQuoted := true, pc := .head }
    else some s.reconnect
  | _ => none

def execute (s : MarketMaker) (o : Order) : Option MarketMaker := do
  let (book, events, _) ← Matcher.submit s.book o
  some { s with book := book, events := s.events ++ events, done := s.done ++ [o] }

/-- A fill counts for no more than what is left of the entry. -/
def takeOf (q remaining : Qty) : Qty := if q < remaining then q else remaining

def applyFill (s : MarketMaker) (id : OrderId) (q : Qty) : MarketMaker :=
  match s.orders.find id with
  | none => s
  | some o =>
    if q = 0 then s
    else
      let take := takeOf q o.remaining
      let s := { s with inventory := if o.side = Side.BUY then s.inventory + take.toNat else s.inventory - take.toNat }
      if o.remaining - take = 0 then { s with orders := s.orders.erase id }
      else { s with orders := s.orders.set id { o with remaining := o.remaining - take } }

def handle (s : MarketMaker) (event : TradeEvent) : MarketMaker :=
  if event.status = TRADE_STATUS_REJECTED then { s with orders := s.orders.erase event.takerId }
  else (s.applyFill event.takerId event.quantity).applyFill event.makerId event.quantity

inductive Action
  | connect (ok : Bool)
  | pass (mid skew : PriceTick) (due : Bool)
  | walk (live : List (OrderId × Side))
  | send (ok : Bool)
  | update
  | deliver
  | trade (o : Order)
  | listen

/-- The two threads of the bot, the engine and the other traders, in any order. -/
def act : Action → MarketMaker → Option MarketMaker
  | .connect ok, s =>
    if s.pc = .head ∧ s.connected = false then some { s with connected := ok } else none
  | .pass mid skew due, s => s.pass mid skew due
  | .walk live, s => s.walk live
  | .send ok, s => s.send ok
  | .update, s => s.update
  | .deliver, s =>
    match s.sent[s.delivered]? with
    | none => none
    | some o => ({ s with delivered := s.delivered + 1 } : MarketMaker).execute o
  | .trade o, s =>
    if o.type = OrderType.CANCEL then s.execute o
    else if o.id ∈ s.ids then none
    else ({ s with ids := o.id :: s.ids } : MarketMaker).execute o
  | .listen, s =>
    match s.events[s.heard]? with
    | none => none
    | some event => some { s.handle event with heard := s.heard + 1 }

def step (a : Action) (s : MarketMaker) : Option (MarketMaker × Unit) := (act a s).map (·, ())

end MarketMaker

end Titan
