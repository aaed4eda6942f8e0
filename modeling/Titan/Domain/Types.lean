namespace Titan

abbrev PriceTick := Int64
abbrev Qty := UInt32
abbrev OrderId := UInt64
abbrev Seq := UInt64

/-- An enumeration with a fixed underlying byte: any byte can arrive in it. -/
abbrev Side := UInt8

def Side.BUY : Side := 0
def Side.SELL : Side := 1

abbrev OrderType := UInt8

def OrderType.LIMIT : OrderType := 0
def OrderType.MARKET : OrderType := 1
def OrderType.IOC : OrderType := 2
def OrderType.CANCEL : OrderType := 3

def INVALID_INDEX : Nat := 0xFFFFFFFF

def MIN_VALID_PRICE : PriceTick := 1
def MAX_VALID_PRICE : PriceTick := 1048576

def isValidPrice (p : PriceTick) : Bool := decide (MIN_VALID_PRICE ≤ p) && decide (p ≤ MAX_VALID_PRICE)

structure Order where
  id : OrderId
  seq : Seq
  price : PriceTick
  quantity : Qty
  remaining : Qty
  side : Side
  type : OrderType
  deriving DecidableEq, Repr, Inhabited

def Order.withRemaining (o : Order) (remaining : Qty) : Order := { o with remaining := remaining }

theorem limit_not_cancel {o : Order} (limit : o.type = OrderType.LIMIT) : o.type ≠ OrderType.CANCEL := by
  rw [limit]
  decide

@[simp] theorem Order.withRemaining_remaining (o : Order) (r : Qty) : (o.withRemaining r).remaining = r := rfl

@[simp] theorem Order.withRemaining_id (o : Order) (r : Qty) : (o.withRemaining r).id = o.id := rfl

@[simp] theorem Order.withRemaining_side (o : Order) (r : Qty) : (o.withRemaining r).side = o.side := rfl

def isAdmissible (o : Order) : Bool :=
  o.type == OrderType.MARKET || o.type == OrderType.CANCEL || isValidPrice o.price

structure PriceLevel where
  price : PriceTick := 0
  head : Nat := INVALID_INDEX
  tail : Nat := INVALID_INDEX
  totalQty : UInt64 := 0
  orderCount : UInt32 := 0
  deriving DecidableEq, Repr, Inhabited

def TRADE_STATUS_FILL : UInt8 := 0
def TRADE_STATUS_REJECTED : UInt8 := 1

structure TradeEvent where
  takerId : OrderId
  makerId : OrderId
  price : PriceTick
  feedSeq : UInt64
  quantity : Qty
  takerSide : Side
  status : UInt8
  deriving DecidableEq, Repr, Inhabited

end Titan
