import Titan.Book.Ladder

namespace Titan

structure Resting where
  id : OrderId
  side : Half
  price : PriceTick
  remaining : Qty
  deriving DecidableEq, Repr

def Resting.of (o : Order) : Resting where
  id := o.id
  side := Half.ofSide o.side
  price := o.price
  remaining := o.remaining

namespace PriceTime

/-- The resting orders in the order in which they were admitted. -/
abbrev Book := List Resting

def better : Half → PriceTick → PriceTick → Bool
  | .bids, p, q => decide (q < p)
  | .asks, p, q => decide (p < q)

/-- The order of one side with the best price, the earliest of those. -/
def best (h : Half) : Book → Option Resting
  | [] => none
  | r :: rest =>
    if r.side = h then
      match best h rest with
      | none => some r
      | some s => if better h s.price r.price then some s else some r
    else best h rest

def live (book : Book) (id : OrderId) : Bool := book.any fun r => r.id == id

def without (book : Book) (id : OrderId) : Book := book.filter fun r => r.id ≠ id

def reduce (book : Book) (id : OrderId) (remaining : Qty) : Book :=
  book.map fun r => if r.id = id then { r with remaining := remaining } else r

def crosses (taker : Order) (price : PriceTick) : Bool :=
  if taker.type = OrderType.MARKET then true
  else if taker.side = Side.BUY then decide (price ≤ taker.price)
  else decide (taker.price ≤ price)

def fillEvent (taker : Order) (maker : Resting) (qty : Qty) : TradeEvent where
  takerId := taker.id
  makerId := maker.id
  price := maker.price
  feedSeq := taker.seq
  quantity := qty
  takerSide := if taker.side = Side.BUY then Side.BUY else Side.SELL
  status := TRADE_STATUS_FILL

def rejectEvent (taker : Order) : TradeEvent where
  takerId := taker.id
  makerId := 0
  price := taker.price
  feedSeq := taker.seq
  quantity := 0
  takerSide := taker.side
  status := TRADE_STATUS_REJECTED

structure Crossed where
  book : Book
  taker : Order
  events : List TradeEvent

/-- Fill the taker from the best order, again and again. Every round but the last removes
    an order from the book. -/
def cross : Nat → Book → Order → Crossed
  | 0, book, taker => { book := book, taker := taker, events := [] }
  | rounds + 1, book, taker =>
    if taker.remaining = 0 then { book := book, taker := taker, events := [] }
    else
      match best (Half.ofSide taker.side).opposite book with
      | none => { book := book, taker := taker, events := [] }
      | some maker =>
        if crosses taker maker.price then
          let qty := if maker.remaining ≤ taker.remaining then maker.remaining else taker.remaining
          let later := cross rounds
            (if qty = maker.remaining then without book maker.id else reduce book maker.id (maker.remaining - qty))
            (taker.withRemaining (taker.remaining - qty))
          { later with events := fillEvent taker maker qty :: later.events }
        else { book := book, taker := taker, events := [] }

/-- An order joins the book if its id is below `slabSize` and not in use, and there is `room`. -/
def enqueue (slabSize : Nat) (room : Bool) (book : Book) (o : Order) : Book × Bool :=
  if o.id.toNat < slabSize ∧ live book o.id = false ∧ room = true then (book ++ [Resting.of o], true) else (book, false)

structure Answer where
  book : Book
  events : List TradeEvent
  result : MatchResult

def submit (slabSize : Nat) (room : Bool) (book : Book) (o : Order) : Answer :=
  if o.type = OrderType.CANCEL then
    { book := without book o.id, events := [], result := { canceled := live book o.id } }
  else if isAdmissible o = false then
    { book := book, events := [rejectEvent o], result := { residual := o.remaining, rejected := true } }
  else
    let crossed := cross book.length book o
    let result : MatchResult :=
      { filled := o.remaining - crossed.taker.remaining
        residual := crossed.taker.remaining
        trades := UInt32.ofNat crossed.events.length }
    if crossed.taker.remaining ≠ 0 ∧ o.type = OrderType.LIMIT then
      let (book, rested) := enqueue slabSize room crossed.book crossed.taker
      { book := book
        events := crossed.events ++ if rested then [] else [rejectEvent crossed.taker]
        result := { result with rested := rested, rejected := !rested } }
    else { book := crossed.book, events := crossed.events, result := result }

section Cases

variable {slabSize : Nat} {room : Bool} {book : Book} {o : Order}

theorem submit_cancel (type : o.type = OrderType.CANCEL) :
    submit slabSize room book o =
      { book := without book o.id, events := [], result := { canceled := live book o.id } } := by
  rw [submit, if_pos type]

theorem submit_inadmissible (type : o.type ≠ OrderType.CANCEL) (bad : isAdmissible o = false) :
    submit slabSize room book o =
      { book := book, events := [rejectEvent o], result := { residual := o.remaining, rejected := true } } := by
  rw [submit, if_neg type, if_pos bad]

def crossedResult (book : Book) (o : Order) : MatchResult where
  filled := o.remaining - (cross book.length book o).taker.remaining
  residual := (cross book.length book o).taker.remaining
  trades := UInt32.ofNat (cross book.length book o).events.length

theorem submit_discards (type : o.type ≠ OrderType.CANCEL) (good : isAdmissible o = true)
    (finished : ¬((cross book.length book o).taker.remaining ≠ 0 ∧ o.type = OrderType.LIMIT)) :
    submit slabSize room book o =
      { book := (cross book.length book o).book, events := (cross book.length book o).events,
        result := crossedResult book o } := by
  have bad : ¬isAdmissible o = false := by simp [good]
  simp only [submit, if_neg type, if_neg bad, if_neg finished]
  rfl

theorem submit_rests (type : o.type ≠ OrderType.CANCEL) (good : isAdmissible o = true)
    (residual : (cross book.length book o).taker.remaining ≠ 0 ∧ o.type = OrderType.LIMIT) :
    submit slabSize room book o =
      let crossed := cross book.length book o
      let entered := enqueue slabSize room crossed.book crossed.taker
      { book := entered.1
        events := crossed.events ++ if entered.2 then [] else [rejectEvent crossed.taker]
        result := { crossedResult book o with rested := entered.2, rejected := !entered.2 } } := by
  have bad : ¬isAdmissible o = false := by simp [good]
  simp only [submit, if_neg type, if_neg bad, if_pos residual]
  rfl

end Cases

end PriceTime

end Titan
