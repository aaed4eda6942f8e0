import Titan.Book.OrderBook

namespace Titan

open PinNode (CAPACITY NIL_SLOT)

structure MatchResult where
  filled : Qty := 0
  residual : Qty := 0
  trades : UInt32 := 0
  rested : Bool := false
  rejected : Bool := false
  canceled : Bool := false
  deriving DecidableEq, Repr

/-- What `submit` works on: `taker` is its copy of the order, `events` what the sink has taken. -/
structure Matcher where
  book : OrderBook
  taker : Order
  events : List TradeEvent := []
  result : MatchResult := {}

namespace Matcher

def rejectEvent (taker : Order) : TradeEvent where
  takerId := taker.id
  makerId := 0
  price := taker.price
  feedSeq := taker.seq
  quantity := 0
  takerSide := taker.side
  status := TRADE_STATUS_REJECTED

def emitReject (m : Matcher) : Matcher :=
  if m.result.rejected then m
  else { m with events := m.events ++ [rejectEvent m.taker], result := { m.result with rejected := true } }

def fillEvent (maker taker : Order) (takerBuy : Bool) (qty : Qty) : TradeEvent where
  takerId := taker.id
  makerId := maker.id
  price := maker.price
  feedSeq := taker.seq
  quantity := qty
  takerSide := if takerBuy then Side.BUY else Side.SELL
  status := TRADE_STATUS_FILL

def emit (m : Matcher) (maker : Order) (takerBuy : Bool) (qty : Qty) : Matcher :=
  { m with
    events := m.events ++ [fillEvent maker m.taker takerBuy qty]
    result := { m.result with trades := m.result.trades + 1 } }

def dropFront (b : OrderBook) (lvl : PriceLevel) : OrderBook × PriceLevel :=
  let nxt := (b.nodes lvl.head).next
  let b := b.freeNode lvl.head
  let lvl := { lvl with head := nxt }
  if nxt ≠ INVALID_INDEX then (b.setNode nxt ((b.nodes nxt).setPrev INVALID_INDEX), lvl)
  else (b, { lvl with tail := INVALID_INDEX })

def frontNodeLoop : Nat → OrderBook → PriceLevel → Option (OrderBook × PriceLevel × Option Nat)
  | 0, _, _ => none
  | fuel + 1, b, lvl =>
    if lvl.head = INVALID_INDEX then some (b, lvl, none)
    else if lvl.head ≥ b.nodeCount then
      some (b.repair, { lvl with head := INVALID_INDEX, tail := INVALID_INDEX }, none)
    else if (b.nodes lvl.head).empty = false then some (b, lvl, some lvl.head)
    else
      let (b, lvl) := dropFront b lvl
      frontNodeLoop fuel b lvl

def frontNode (b : OrderBook) (lvl : PriceLevel) : Option (OrderBook × PriceLevel × Option Nat) :=
  frontNodeLoop (b.nodeCount + 1) b lvl

def dropMaker (b : OrderBook) (lvl : PriceLevel) (n s : Nat) (id : OrderId) : OrderBook × PriceLevel :=
  let b := b.eraseId id
  let (node, removed) := (b.nodes n).remove s
  let b := b.setNode n node
  let b := if removed then b else b.repair
  b.takeCount lvl

def fillQty (taker maker : Order) : Qty :=
  if taker.remaining < maker.remaining then taker.remaining else maker.remaining

/-- One round of the loop of `sweep_level`, against the order in slot `s` of node `n`. -/
def fillFront (takerBuy : Bool) (m : Matcher) (lvl : PriceLevel) (n s : Nat) : Matcher × PriceLevel :=
  let maker := (m.book.nodes n).slots s
  if maker.remaining = 0 then
    let (b, lvl) := dropMaker m.book lvl n s maker.id
    ({ m with book := b }, lvl)
  else
    let fill := fillQty m.taker maker
    let m := { m with taker := m.taker.withRemaining (m.taker.remaining - fill) }
    let maker := maker.withRemaining (maker.remaining - fill)
    let b := m.book.setNode n ((m.book.nodes n).setSlot s maker)
    let (b, lvl) := b.takeQty lvl fill
    let m := m.emit maker takerBuy fill
    if maker.remaining = 0 then
      let (b, lvl) := dropMaker b lvl n s maker.id
      ({ m with book := b }, lvl)
    else ({ m with book := b.notePartialFill maker.id maker.remaining }, lvl)

def sweepLevelLoop (takerBuy : Bool) : Nat → Matcher → PriceLevel → Option (Matcher × PriceLevel)
  | 0, _, _ => none
  | fuel + 1, m, lvl =>
    if m.taker.remaining = 0 then some (m, lvl)
    else do
      let (b, lvl, front) ← frontNode m.book lvl
      let m := { m with book := b }
      match front with
      | none => some (m, lvl)
      | some n =>
        let s := (b.nodes n).headSlot
        if s = NIL_SLOT then some ({ m with book := b.repair }, lvl)
        else
          let (m, lvl) := m.fillFront takerBuy lvl n s
          sweepLevelLoop takerBuy fuel m lvl

def sweepLevel (takerBuy : Bool) (m : Matcher) (lvl : PriceLevel) : Option (Matcher × PriceLevel) :=
  sweepLevelLoop takerBuy (CAPACITY * m.book.nodeCount + 2) m lvl

def crosses (taker : Order) (takerBuy : Bool) (price : PriceTick) : Bool :=
  if taker.type = OrderType.MARKET then true
  else if takerBuy then decide (taker.price ≥ price)
  else decide (taker.price ≤ price)

def crossLoop (opp : Half) (takerBuy : Bool) : Nat → Matcher → Option Matcher
  | 0, _ => none
  | fuel + 1, m =>
    if m.taker.remaining ≠ 0 ∧ (m.book.maps opp).empty = false then
      let i := (m.book.maps opp).begin_
      let lvl := m.book.level opp i
      if crosses m.taker takerBuy lvl.price = false then some m
      else do
        let (m, lvl) ← m.sweepLevel takerBuy lvl
        let m := { m with book := m.book.setLevel opp i lvl }
        if lvl.orderCount = 0 then
          let b ← m.book.reclaimLevel opp i lvl
          crossLoop opp takerBuy fuel { m with book := b }
        else crossLoop opp takerBuy fuel m
    else some m

def cross (opp : Half) (takerBuy : Bool) (m : Matcher) : Option Matcher :=
  crossLoop opp takerBuy ((m.book.maps opp).size_ + 1) m

def crossOpposite (m : Matcher) : Option Matcher :=
  if m.taker.remaining ≠ 0 then
    if m.taker.side = Side.BUY then m.cross .asks true else m.cross .bids false
  else some m

def restResidual (m : Matcher) : Option Matcher :=
  if m.taker.remaining ≠ 0 ∧ m.taker.type = OrderType.LIMIT then do
    let (book, rested) ← m.book.add m.taker
    let m := { m with book := book, result := { m.result with rested := rested } }
    some (if rested then m else m.emitReject)
  else some m

/-- `add` is `noexcept`, so that the handler around the crossing is never entered. -/
def submit (book : OrderBook) (o : Order) : Option (OrderBook × List TradeEvent × MatchResult) :=
  let m : Matcher := { book := book, taker := o }
  if o.type = OrderType.CANCEL then do
    let (book, canceled) ← book.cancel o.id
    some (book, [], { m.result with canceled := canceled })
  else if isAdmissible o = false then
    let m := ({ m with result := { m.result with residual := o.remaining } } : Matcher).emitReject
    some (m.book, m.events, m.result)
  else do
    let m ← m.crossOpposite
    let m := { m with result := { m.result with
      filled := o.remaining - m.taker.remaining
      residual := m.taker.remaining } }
    let m ← m.restResidual
    some (m.book, m.events, m.result)

end Matcher

end Titan
