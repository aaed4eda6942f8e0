import Titan.Book.PinNode
import Titan.Book.RBPriceIndex

namespace Titan

open RBPriceIndex (NIL)

structure SlabEntry where
  node : Nat
  slot : Nat
  price : PriceTick := 0
  remaining : Qty := 0
  side : Side := Side.BUY
  deriving DecidableEq, Repr

inductive Half
  | bids
  | asks
  deriving DecidableEq, Repr

namespace Half

/-- Every byte but `BUY` selects the asks. -/
def ofSide (side : Side) : Half := if side = Side.BUY then .bids else .asks

def opposite : Half → Half
  | .bids => .asks
  | .asks => .bids

def compare : Half → Compare
  | .bids => .greater
  | .asks => .less

end Half

/-- The slab and the node pool are total functions beside their sizes, `freeNodes` lists the
    stack from its back. `repairs` is not in the source: it counts the defensive branches
    that were taken. -/
structure OrderBook where
  nodes : Nat → PinNode
  nodeCount : Nat
  locators : Nat → SlabEntry
  slabSize : Nat
  freeNodes : List Nat
  maps : Half → RBPriceIndex
  liveCount : UInt64
  repairs : Nat

namespace OrderBook

def create (maxNodes idCapacity levelCapacity : Nat) : OrderBook where
  nodes := fun _ =>
    { occupancyMask := 0, headSlot := 0, tailSlot := 0, next := 0, prev := 0, nextInTime := fun _ => 0,
      prevInTime := fun _ => 0, slots := fun _ => default }
  nodeCount := maxNodes
  locators := fun _ => { node := INVALID_INDEX, slot := 0 }
  slabSize := if idCapacity ≠ 0 then idCapacity else maxNodes * PinNode.CAPACITY
  freeNodes := List.range maxNodes
  maps := fun h => RBPriceIndex.create h.compare levelCapacity
  liveCount := 0
  repairs := 0

def repair (b : OrderBook) : OrderBook := { b with repairs := b.repairs + 1 }

def setMap (b : OrderBook) (h : Half) (t : RBPriceIndex) : OrderBook := { b with maps := Function.update b.maps h t }

def setNode (b : OrderBook) (n : Nat) (node : PinNode) : OrderBook := { b with nodes := Function.update b.nodes n node }

def level (b : OrderBook) (h : Half) (i : Nat) : PriceLevel := ((b.maps h).kv i).2

def setLevel (b : OrderBook) (h : Half) (i : Nat) (lvl : PriceLevel) : OrderBook := b.setMap h ((b.maps h).setLevel i lvl)

def clearSlot (b : OrderBook) (id : OrderId) : OrderBook :=
  { b with
    locators := Function.update b.locators id.toNat { b.locators id.toNat with node := INVALID_INDEX }
    liveCount := b.liveCount - 1 }

def eraseId (b : OrderBook) (id : OrderId) : OrderBook :=
  if id.toNat < b.slabSize ∧ (b.locators id.toNat).node ≠ INVALID_INDEX then b.clearSlot id else b.repair

def notePartialFill (b : OrderBook) (id : OrderId) (remaining : Qty) : OrderBook :=
  if id.toNat < b.slabSize then
    { b with locators := Function.update b.locators id.toNat { b.locators id.toNat with remaining := remaining } }
  else b.repair

def allocNode (b : OrderBook) : OrderBook × Nat :=
  match b.freeNodes with
  | [] => (b, INVALID_INDEX)
  | n :: rest => (({ b with freeNodes := rest } : OrderBook).setNode n (b.nodes n).reset, n)

def freeNode (b : OrderBook) (n : Nat) : OrderBook :=
  if n ≥ b.nodeCount then b.repair else { b with freeNodes := n :: b.freeNodes }

/-- The cell of the level, or `none` when the node pool is exhausted and the new level was
    taken back. The outer `none` is a loop of the index that did not end. -/
def findOrCreateLevel (b : OrderBook) (h : Half) (price : PriceTick) :
    Option (OrderBook × Except Exception (Option Nat)) := do
  let (t, emplaced) ← (b.maps h).tryEmplace price
  let b := b.setMap h t
  match emplaced with
  | .error e => some (b, .error e)
  | .ok (i, false) => some (b, .ok (some i))
  | .ok (i, true) =>
    let (b, n) := b.allocNode
    if n = INVALID_INDEX then
      let t ← (b.maps h).erase i
      some (b.setMap h t, .ok none)
    else some (b.setLevel h i { b.level h i with price := price, head := n, tail := n }, .ok (some i))

def ensureTailWithSpace (b : OrderBook) (lvl : PriceLevel) : OrderBook × PriceLevel × Nat :=
  let t := lvl.tail
  if t = INVALID_INDEX then
    let (b, n) := b.repair.allocNode
    if n = INVALID_INDEX then (b, lvl, INVALID_INDEX) else (b, { lvl with head := n, tail := n }, n)
  else if (b.nodes t).full = false then (b, lvl, t)
  else
    let (b, n) := b.allocNode
    if n = INVALID_INDEX then (b, lvl, INVALID_INDEX)
    else
      let b := b.setNode n ((b.nodes n).setPrev t)
      let b := b.setNode t ((b.nodes t).setNext n)
      (b, { lvl with tail := n }, n)

/-- The part of `add_impl` that follows the search for the level. -/
def pushOrder (b : OrderBook) (h : Half) (i : Nat) (o : Order) : OrderBook × Bool :=
  let (b, lvl, n) := b.ensureTailWithSpace (b.level h i)
  let b := b.setLevel h i lvl
  if n = INVALID_INDEX then (b, false)
  else
    let (node, slot) := (b.nodes n).insert o
    let b := b.setNode n node
    if slot = INVALID_INDEX then (b.repair, false)
    else
      let lvl := { lvl with totalQty := lvl.totalQty + o.remaining.toUInt64, orderCount := lvl.orderCount + 1 }
      let b := b.setLevel h i lvl
      let entry := { node := n, slot := slot, price := o.price, remaining := o.remaining, side := o.side }
      ({ b with
        locators := Function.update b.locators o.id.toNat entry
        liveCount := b.liveCount + 1 }, true)

def addImpl (b : OrderBook) (h : Half) (o : Order) : Option (OrderBook × Except Exception Bool) := do
  let (b, found) ← b.findOrCreateLevel h o.price
  match found with
  | .error e => some (b, .error e)
  | .ok none => some (b, .ok false)
  | .ok (some i) =>
    let (b, added) := b.pushOrder h i o
    some (b, .ok added)

def add (b : OrderBook) (o : Order) : Option (OrderBook × Bool) :=
  if o.id.toNat ≥ b.slabSize then some (b, false)
  else if (b.locators o.id.toNat).node ≠ INVALID_INDEX then some (b, false)
  else do
    let (b, added) ← b.addImpl (Half.ofSide o.side) o
    match added with
    | .ok rested => some (b, rested)
    | .error _ => some (b, false)

def freeLevelNodesLoop : Nat → OrderBook → Nat → Option OrderBook
  | 0, _, _ => none
  | fuel + 1, b, n =>
    if n = INVALID_INDEX then some b
    else freeLevelNodesLoop fuel (b.freeNode n) (if n < b.nodeCount then (b.nodes n).next else INVALID_INDEX)

def freeLevelNodes (b : OrderBook) (lvl : PriceLevel) : Option (OrderBook × PriceLevel) := do
  let b ← freeLevelNodesLoop (b.nodeCount + 1) b lvl.head
  some (b, { lvl with head := INVALID_INDEX, tail := INVALID_INDEX })

def reclaimLevel (b : OrderBook) (h : Half) (i : Nat) (lvl : PriceLevel) : Option OrderBook := do
  let (b, lvl) ← b.freeLevelNodes lvl
  let t ← ((b.setLevel h i lvl).maps h).erase i
  some (b.setMap h t)

/-- An aggregate never goes below zero. -/
def takeQty (b : OrderBook) (lvl : PriceLevel) (q : Qty) : OrderBook × PriceLevel :=
  if lvl.totalQty ≥ q.toUInt64 then (b, { lvl with totalQty := lvl.totalQty - q.toUInt64 })
  else (b.repair, { lvl with totalQty := 0 })

def takeCount (b : OrderBook) (lvl : PriceLevel) : OrderBook × PriceLevel :=
  if lvl.orderCount > 0 then (b, { lvl with orderCount := lvl.orderCount - 1 }) else (b.repair, lvl)

def updateAfterCancel (b : OrderBook) (h : Half) (price : PriceTick) (rem : Qty) : Option OrderBook := do
  let i ← (b.maps h).find price
  if i = NIL then some b.repair
  else
    let (b, lvl) := b.takeQty (b.level h i) rem
    let (b, lvl) := b.takeCount lvl
    let b := b.setLevel h i lvl
    if lvl.orderCount = 0 then b.reclaimLevel h i lvl else some b

def cancel (b : OrderBook) (id : OrderId) : Option (OrderBook × Bool) :=
  if id.toNat ≥ b.slabSize then some (b, false)
  else
    let loc := b.locators id.toNat
    if loc.node = INVALID_INDEX then some (b, false)
    else if loc.node ≥ b.nodeCount then some ((b.clearSlot id).repair, false)
    else
      let (node, removed) := (b.nodes loc.node).remove loc.slot
      let b := (b.setNode loc.node node).clearSlot id
      if removed = false then some (b.repair, false)
      else do
        let b ← b.updateAfterCancel (Half.ofSide loc.side) loc.price loc.remaining
        some (b, true)

end OrderBook

end Titan
