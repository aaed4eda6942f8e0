import Titan.Data.TreeStore
import Titan.Domain.Types
import Mathlib.Logic.Function.Basic

namespace Titan

open RedBlack

inductive Compare
  | less
  | greater
  deriving DecidableEq, Repr

def Compare.before : Compare → PriceTick → PriceTick → Bool
  | .less, a, b => decide (a < b)
  | .greater, a, b => decide (b < a)

inductive Exception
  | badAlloc
  deriving DecidableEq, Repr

namespace RBPriceIndex

def NIL : Nat := 0

end RBPriceIndex

open RBPriceIndex (NIL)

/-- The node pool, kept as one array per member of `Node`. Cell 0 is the sentinel;
    `free` lists the stack of unused cells from its back. -/
structure RBPriceIndex where
  links : Store Nat
  kv : Nat → PriceTick × PriceLevel
  pred : Nat → Nat
  succ : Nat → Nat
  free : List Nat
  begin_ : Nat
  size_ : Nat
  before_ : Compare

namespace RBPriceIndex

/-- The link to `u` in its parent, or the root, now leads to `v`. Side `d` is tested first. -/
def replaceChild (d : Dir) (s : Store Nat) (u v : Nat) : Store Nat :=
  if s.parent u = NIL then s.setRoot v
  else if u = s.child d (s.parent u) then s.setChild d (s.parent u) v
  else s.setChild d.opp (s.parent u) v

def rotate (d : Dir) (s : Store Nat) (x : Nat) : Store Nat :=
  let y := s.child d.opp x
  let s := s.setChild d.opp x (s.child d y)
  let s := if s.child d y ≠ NIL then s.setParent (s.child d y) x else s
  let s := s.setParent y (s.parent x)
  let s := replaceChild d s x y
  let s := s.setChild d y x
  s.setParent x y

def rotateLeft (s : Store Nat) (x : Nat) : Store Nat := rotate .left s x

def rotateRight (s : Store Nat) (x : Nat) : Store Nat := rotate .right s x

def insertRotate (d : Dir) (s : Store Nat) (z : Nat) : Store Nat :=
  let s := s.setColor (s.parent z) .black
  let s := s.setColor (s.parent (s.parent z)) .red
  rotate d.opp s (s.parent (s.parent z))

def insertFixupLoop : Nat → Store Nat → Nat → Option (Store Nat)
  | 0, _, _ => none
  | fuel + 1, s, z =>
    if s.color (s.parent z) = .red then
      let p := s.parent z
      let gp := s.parent p
      let d := if p = s.child .left gp then Dir.left else Dir.right
      let u := s.child d.opp gp
      if s.color u = .red then
        insertFixupLoop fuel (((s.setColor p .black).setColor u .black).setColor gp .red) gp
      else if z = s.child d.opp p then
        insertFixupLoop fuel (insertRotate d (rotate d s p) p) p
      else
        insertFixupLoop fuel (insertRotate d s z) z
    else some s

/-- `none` when the loop has not left after `fuel` rounds. -/
def insertFixup (fuel : Nat) (s : Store Nat) (z : Nat) : Option (Store Nat) :=
  (insertFixupLoop fuel s z).map fun s => s.setColor s.root .black

def transplant (s : Store Nat) (u v : Nat) : Store Nat :=
  let s := replaceChild .left s u v
  s.setParent v (s.parent u)

def deleteRedSibling (d : Dir) (s : Store Nat) (x w : Nat) : Store Nat :=
  if s.color w = .red then
    let s := (s.setColor w .black).setColor (s.parent x) .red
    rotate d s (s.parent x)
  else s

def deleteNearNephew (d : Dir) (s : Store Nat) (w : Nat) : Store Nat :=
  if s.color (s.child d.opp w) = .black then
    let s := (s.setColor (s.child d w) .black).setColor w .red
    rotate d.opp s w
  else s

def deleteRotate (d : Dir) (s : Store Nat) (x w : Nat) : Store Nat :=
  let s := s.setColor w (s.color (s.parent x))
  let s := s.setColor (s.parent x) .black
  let s := s.setColor (s.child d.opp w) .black
  rotate d s (s.parent x)

def deleteFixupLoop : Nat → Store Nat → Nat → Option (Store Nat × Nat)
  | 0, _, _ => none
  | fuel + 1, s, x =>
    if x ≠ s.root ∧ s.color x = .black then
      let d := if x = s.child .left (s.parent x) then Dir.left else Dir.right
      let s := deleteRedSibling d s x (s.child d.opp (s.parent x))
      let w := s.child d.opp (s.parent x)
      if s.color (s.child d w) = .black ∧ s.color (s.child d.opp w) = .black then
        deleteFixupLoop fuel (s.setColor w .red) (s.parent x)
      else
        let s := deleteNearNephew d s w
        let s := deleteRotate d s x (s.child d.opp (s.parent x))
        deleteFixupLoop fuel s s.root
    else some (s, x)

def deleteFixup (fuel : Nat) (s : Store Nat) (x : Nat) : Option (Store Nat) :=
  (deleteFixupLoop fuel s x).map fun (s, x) => s.setColor x .black

/-- `capacity` has the width of `size_t`; the free list is filled by a 32-bit counter. -/
def create (cmp : Compare) (capacity : Nat) : RBPriceIndex where
  links := { child := fun _ _ => NIL, parent := fun _ => NIL, color := fun _ => .black, root := NIL }
  kv := fun _ => (0, {})
  pred := fun _ => NIL
  succ := fun _ => NIL
  free := (List.range (capacity % 2 ^ 32)).map (· + 1)
  begin_ := NIL
  size_ := 0
  before_ := cmp

def alloc (t : RBPriceIndex) : Except Exception (Nat × RBPriceIndex) :=
  match t.free with
  | [] => .error .badAlloc
  | i :: free =>
    .ok (i, { t with
      free := free
      links := (((t.links.setChild .left i NIL).setChild .right i NIL).setParent i NIL).setColor i .black
      kv := Function.update t.kv i (0, {})
      pred := Function.update t.pred i NIL
      succ := Function.update t.succ i NIL })

def release (t : RBPriceIndex) (i : Nat) : RBPriceIndex := { t with free := i :: t.free }

inductive Search
  | found (x : Nat)
  | missing (y pred succ : Nat)
  deriving DecidableEq, Repr

def descend (t : RBPriceIndex) (price : PriceTick) : Nat → Nat → Nat → Nat → Nat → Option Search
  | 0, _, _, _, _ => none
  | fuel + 1, y, x, pred, succ =>
    if x = NIL then some (.missing y pred succ)
    else if price = (t.kv x).1 then some (.found x)
    else if t.before_.before price (t.kv x).1 then t.descend price fuel x (t.links.child .left x) pred x
    else t.descend price fuel x (t.links.child .right x) x succ

def findLoop (t : RBPriceIndex) (price : PriceTick) : Nat → Nat → Option Nat
  | 0, _ => none
  | fuel + 1, x =>
    if x = NIL then some NIL
    else if price = (t.kv x).1 then some x
    else t.findLoop price fuel (if t.before_.before price (t.kv x).1 then t.links.child .left x
      else t.links.child .right x)

/-- The cell of the returned iterator; `NIL` is `end()`. -/
def find (t : RBPriceIndex) (price : PriceTick) : Option Nat := t.findLoop price (t.size_ + 1) t.links.root

def splice (t : RBPriceIndex) (price : PriceTick) (z y pred succ : Nat) : RBPriceIndex :=
  let t := { t with
    kv := Function.update t.kv z (price, (t.kv z).2)
    links := (((t.links.setChild .left z NIL).setChild .right z NIL).setParent z y).setColor z .red
    pred := Function.update t.pred z pred
    succ := Function.update t.succ z succ }
  let t :=
    if y = NIL then { t with links := t.links.setRoot z }
    else if t.before_.before price (t.kv y).1 then { t with links := t.links.setChild .left y z }
    else { t with links := t.links.setChild .right y z }
  let t := if pred ≠ NIL then { t with succ := Function.update t.succ pred z } else { t with begin_ := z }
  if succ ≠ NIL then { t with pred := Function.update t.pred succ z } else t

/-- The outer `none` is a loop that did not end within its fuel. -/
def tryEmplace (t : RBPriceIndex) (price : PriceTick) :
    Option (RBPriceIndex × Except Exception (Nat × Bool)) := do
  match ← t.descend price (t.size_ + 1) NIL t.links.root NIL NIL with
  | .found x => some (t, .ok (x, false))
  | .missing y pred succ =>
    match t.alloc with
    | .error e => some (t, .error e)
    | .ok (z, t) =>
      let t := t.splice price z y pred succ
      let links ← insertFixup (t.size_ + 2) t.links z
      some ({ t with links := links, size_ := t.size_ + 1 }, .ok (z, true))

def unlink (t : RBPriceIndex) (z : Nat) : RBPriceIndex :=
  let t :=
    if t.pred z ≠ NIL then { t with succ := Function.update t.succ (t.pred z) (t.succ z) }
    else { t with begin_ := t.succ z }
  if t.succ z ≠ NIL then { t with pred := Function.update t.pred (t.succ z) (t.pred z) } else t

/-- Take `z` out of the tree; `y` is its successor. Returns the cell that moved up and
    the colour that was lost. -/
def graft (s : Store Nat) (z y : Nat) : Store Nat × Nat × Color :=
  if s.child .left z = NIL then
    (transplant s z (s.child .right z), s.child .right z, s.color z)
  else if s.child .right z = NIL then
    (transplant s z (s.child .left z), s.child .left z, s.color z)
  else
    let lost := s.color y
    let x := s.child .right y
    let s :=
      if s.parent y = z then s.setParent x y
      else
        let s := transplant s y (s.child .right y)
        let s := s.setChild .right y (s.child .right z)
        s.setParent (s.child .right y) y
    let s := transplant s z y
    let s := s.setChild .left y (s.child .left z)
    let s := s.setParent (s.child .left y) y
    (s.setColor y (s.color z), x, lost)

def erase (t : RBPriceIndex) (z : Nat) : Option RBPriceIndex :=
  if z = NIL then some t
  else do
    let t := t.unlink z
    let (links, x, lost) := graft t.links z (t.succ z)
    let links ← if lost = .black then deleteFixup (t.size_ + 2) links x else some links
    let links := (links.setParent NIL NIL).setColor NIL .black
    let t := ({ t with links := links } : RBPriceIndex).release z
    some { t with size_ := t.size_ - 1 }

def setLevel (t : RBPriceIndex) (i : Nat) (level : PriceLevel) : RBPriceIndex :=
  { t with kv := Function.update t.kv i ((t.kv i).1, level) }

def empty (t : RBPriceIndex) : Bool := t.size_ == 0

end RBPriceIndex

end Titan
