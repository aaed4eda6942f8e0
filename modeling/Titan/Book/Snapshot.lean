import Titan.Book.Conservation
import Titan.Book.Rejection
import Titan.Data.LittleEndian

namespace Titan

open RedBlack Linked PinNode
open RBPriceIndex (NIL)

def SNAPSHOT_MAGIC : UInt64 := 0x544954414E534E50
def SNAPSHOT_VERSION : UInt32 := 1

structure SnapshotLevel where
  price : PriceTick
  totalQty : UInt64
  orderCount : UInt32
  side : UInt8
  deriving DecidableEq, Repr, Inhabited

structure SnapshotHeader where
  magic : UInt64
  version : UInt32
  levelCount : UInt32
  feedSeq : UInt64
  bidLevels : UInt32
  askLevels : UInt32
  checksum : UInt64
  deriving DecidableEq, Repr

/-- The array of levels is a total function; its size is the template parameter. -/
structure SnapshotBuffer where
  header : SnapshotHeader
  levels : Nat → SnapshotLevel

namespace SnapshotLevel

def of (side : UInt8) (lvl : PriceLevel) : SnapshotLevel where
  price := lvl.price
  totalQty := lvl.totalQty
  orderCount := lvl.orderCount
  side := side

def weight (l : SnapshotLevel) : UInt64 := l.price.toUInt64 + l.totalQty + l.orderCount.toUInt64 + l.side.toUInt64

end SnapshotLevel

def Half.snapshotSide : Half → UInt8
  | .bids => 0
  | .asks => 1

namespace OrderBook

/-- The variables of `serialize_l2` that the emission of a level changes. -/
structure Emitter where
  levels : Nat → SnapshotLevel
  n : UInt32
  chk : UInt64

/-- `none` is a write past the array. -/
def emitLevel (maxLevels : Nat) (side : UInt8) (lvl : PriceLevel) (e : Emitter) : Option Emitter :=
  if e.n.toNat < maxLevels then
    let entry := SnapshotLevel.of side lvl
    some { levels := Function.update e.levels e.n.toNat entry, n := e.n + 1, chk := e.chk + entry.weight }
  else none

/-- The loop over one map, from the iterator `it` on; `count` is `nb` or `na`. -/
def emitHalf (b : OrderBook) (h : Half) (maxLevels : Nat) (half : UInt32) :
    Nat → Nat → UInt32 → Emitter → Option (Emitter × UInt32)
  | 0, _, _, _ => none
  | fuel + 1, it, count, e =>
    if it ≠ NIL ∧ count < half then do
      let e ← emitLevel maxLevels h.snapshotSide (b.level h it) e
      b.emitHalf h maxLevels half fuel ((b.maps h).succ it) (count + 1) e
    else some (e, count)

def serializeL2 (b : OrderBook) (maxLevels : Nat) (buf : SnapshotBuffer) (feedSeq : UInt64) : Option SnapshotBuffer := do
  let half := UInt32.ofNat (maxLevels / 2)
  let e : Emitter := { levels := buf.levels, n := 0, chk := 0 }
  let (e, nb) ← b.emitHalf .bids maxLevels half ((b.maps .bids).size_ + 1) (b.maps .bids).begin_ 0 e
  let (e, na) ← b.emitHalf .asks maxLevels half ((b.maps .asks).size_ + 1) (b.maps .asks).begin_ 0 e
  some
    { header :=
        { magic := SNAPSHOT_MAGIC, version := SNAPSHOT_VERSION, levelCount := e.n, feedSeq := feedSeq, bidLevels := nb,
          askLevels := na, checksum := e.chk }
      levels := e.levels }

def l2 (b : OrderBook) (h : Half) : List SnapshotLevel :=
  (b.maps h).iterate.map fun i => SnapshotLevel.of h.snapshotSide (b.level h i)

def checksum (entries : List SnapshotLevel) : UInt64 := entries.foldr (fun l chk => l.weight + chk) 0

theorem checksum_cons (l : SnapshotLevel) (entries : List SnapshotLevel) : checksum (l :: entries) = l.weight + checksum entries := rfl

theorem checksum_concat (entries : List SnapshotLevel) (l : SnapshotLevel) :
    checksum (entries ++ [l]) = checksum entries + l.weight := by
  induction entries with
  | nil => rw [List.nil_append, checksum_cons, checksum, List.foldr_nil, UInt64.add_zero, UInt64.zero_add]
  | cons first rest ih => rw [List.cons_append, checksum_cons, checksum_cons, ih, UInt64.add_assoc]

variable {b : OrderBook} {cap : Nat} {h : Half} {ladders : Half → Ladder}

structure Emitter.Holds (e : Emitter) (entries : List SnapshotLevel) : Prop where
  count : e.n = UInt32.ofNat entries.length
  levels : ∀ (i : Nat) l, entries[i]? = some l → e.levels i = l
  chk : e.chk = checksum entries

theorem emitLevel_spec {e : Emitter} {entries : List SnapshotLevel} (maxLevels : Nat) (holds : e.Holds entries)
    (small : entries.length < 2 ^ 32) (room : entries.length < maxLevels) (side : UInt8) (lvl : PriceLevel) :
    ∃ e', emitLevel maxLevels side lvl e = some e' ∧ e'.Holds (entries ++ [SnapshotLevel.of side lvl]) := by
  have at_ : e.n.toNat = entries.length := by
    rw [holds.count, UInt32.toNat_ofNat', Nat.mod_eq_of_lt small]
  rw [emitLevel, at_, if_pos room]
  refine ⟨_, rfl, ?_, ?_, ?_⟩
  · rw [holds.count, List.length_append, List.length_singleton, UInt32.ofNat_add]
    rfl
  · intro i l held
    by_cases last : i = entries.length
    · subst last
      rw [List.getElem?_concat_length] at held
      rw [← Option.some.inj held]
      exact Function.update_self ..
    · have bound := (List.getElem?_eq_some_iff.mp held).1
      rw [List.length_append, List.length_singleton] at bound
      rw [List.getElem?_append_left (by omega)] at held
      rw [← holds.levels i l held]
      exact Function.update_of_ne last ..
  · rw [holds.chk, checksum_concat]

theorem emitHalf_spec (maxLevels : Nat) {half : UInt32} {cells : List Nat} (fuel : Nat) {it : Nat} {k : Nat} {e : Emitter}
    {entries : List SnapshotLevel} (holds : e.Holds entries) (walk : Walk (b.maps h).succ NIL it cells)
    (enough : cells.length < fuel) (low : k ≤ half.toNat) (small : entries.length + cells.length < 2 ^ 32)
    (room : entries.length + (half.toNat - k) ≤ maxLevels) :
    ∃ e', b.emitHalf h maxLevels half fuel it (UInt32.ofNat k) e =
        some (e', UInt32.ofNat (k + (cells.take (half.toNat - k)).length)) ∧
      e'.Holds (entries ++ (cells.take (half.toNat - k)).map fun i => SnapshotLevel.of h.snapshotSide (b.level h i)) := by
  have range := half.toNat_lt
  have value : (UInt32.ofNat k).toNat = k := by
    rw [UInt32.toNat_ofNat', Nat.mod_eq_of_lt (by omega)]
  induction fuel generalizing it k e entries cells with
  | zero => exact absurd enough (Nat.not_lt_zero _)
  | succ fuel ih =>
    rw [emitHalf]
    cases cells with
    | nil =>
      have done : ¬(it ≠ NIL ∧ UInt32.ofNat k < half) := fun both => both.1 walk
      rw [if_neg done]
      refine ⟨e, by simp, ?_⟩
      rw [List.take_nil, List.map_nil, List.append_nil]
      exact holds
    | cons i rest =>
      rcases walk with ⟨rfl, inside, rest'⟩
      by_cases full : k = half.toNat
      · have done : ¬(it ≠ NIL ∧ UInt32.ofNat k < half) := by
          rw [UInt32.lt_iff_toNat_lt, value]
          omega
        rw [if_neg done, full, Nat.sub_self]
        refine ⟨e, by simp, ?_⟩
        rw [List.take_zero, List.map_nil, List.append_nil]
        exact holds
      · have goes : it ≠ NIL ∧ UInt32.ofNat k < half := by
          rw [UInt32.lt_iff_toNat_lt, value]
          exact ⟨inside, by omega⟩
        rw [List.length_cons] at enough small
        rcases emitLevel_spec maxLevels holds (by omega) (by omega) h.snapshotSide (b.level h it) with
          ⟨e₁, emitted, holds₁⟩
        have next : UInt32.ofNat k + 1 = UInt32.ofNat (k + 1) := by
          rw [UInt32.ofNat_add]
          rfl
        have value' : (UInt32.ofNat (k + 1)).toNat = k + 1 := by
          rw [UInt32.toNat_ofNat', Nat.mod_eq_of_lt (by omega)]
        rcases ih holds₁ rest' (by omega) (by omega) (by simp; omega) (by simp; omega) value' with ⟨e', looped, holds'⟩
        rw [if_pos goes, emitted]
        simp only [Option.bind_eq_bind, Option.bind_some, next]
        rw [show half.toNat - k = (half.toNat - (k + 1)) + 1 by omega, List.take_succ_cons]
        refine ⟨e', ?_, ?_⟩
        · rw [looped, List.length_cons]
          congr 3
          omega
        · rw [List.append_assoc] at holds'
          exact holds'

/-- `levels` are those of the book: one for each price at which orders wait, best first, with
    what waits there. -/
structure Exact (b : OrderBook) (h : Half) (levels : List SnapshotLevel) : Prop where
  sorted : levels.Pairwise fun l later => PriceTime.better h l.price later.price = true
  prices : ∀ price, (∃ l ∈ levels, l.price = price) ↔ b.queueAt h price ≠ []
  totals : ∀ l ∈ levels, l.totalQty.toNat = quantity (b.queueAt h l.price) ∧
    l.orderCount.toNat = (b.queueAt h l.price).length ∧ l.side = h.snapshotSide

def snapshotHeader (feedSeq : UInt64) (bids asks : List SnapshotLevel) : SnapshotHeader where
  magic := SNAPSHOT_MAGIC
  version := SNAPSHOT_VERSION
  levelCount := UInt32.ofNat (bids.length + asks.length)
  feedSeq := feedSeq
  bidLevels := UInt32.ofNat bids.length
  askLevels := UInt32.ofNat asks.length
  checksum := checksum (bids ++ asks)

structure Holding (maxLevels : Nat) (feedSeq : UInt64) (buf : SnapshotBuffer) (bids asks : List SnapshotLevel) : Prop where
  header : buf.header = snapshotHeader feedSeq bids asks
  levels : ∀ (i : Nat) l, (bids ++ asks)[i]? = some l → buf.levels i = l
  fits : bids.length + asks.length ≤ maxLevels
  small : bids.length + asks.length < 2 ^ 32

def rungLevel (h : Half) (rung : PriceTick × List Order) : SnapshotLevel where
  price := rung.1
  totalQty := UInt64.ofNat (quantity rung.2)
  orderCount := UInt32.ofNat rung.2.length
  side := h.snapshotSide

theorem Settled.l2_eq (settled : Settled b cap ladders) (h : Half) : b.l2 h = (ladders h).map (rungLevel h) := by
  rcases settled.rep with ⟨L, rep, rfl⟩
  rw [l2, rep.iterate_eq, Layout.ladder, Layout.rungs, List.map_map]
  apply List.map_congr_left
  intro i member
  have level := rep.levels h i member
  rw [SnapshotLevel.of, level.named, level.total, level.count]
  rfl

theorem Settled.orders_short (settled : Settled b cap ladders) :
    (ladders .bids).orders.length + (ladders .asks).orders.length < 2 ^ 32 := by
  rcases settled.rep with ⟨L, rep, rfl⟩
  have short := rep.stock.spots_length
  rwa [Layout.blocks, Chain.spots_append, List.length_append, ← @Chain.queue_length b.nodes, ← @Chain.queue_length b.nodes,
    ← ladder_orders, ← ladder_orders] at short

theorem ladder_length_le {ladder : Ladder} (inhabited : ∀ rung ∈ ladder, rung.2 ≠ []) : ladder.length ≤ ladder.orders.length := by
  induction ladder with
  | nil => exact Nat.le_refl 0
  | cons rung rest ih =>
    have first := List.length_pos_iff.mpr (inhabited rung List.mem_cons_self)
    have later := ih fun r member => inhabited r (List.mem_cons_of_mem _ member)
    rw [Ladder.orders] at later ⊢
    rw [List.flatMap_cons, List.length_append, List.length_cons]
    omega

theorem Settled.rung_queue (settled : Settled b cap ladders) {rung : PriceTick × List Order} (member : rung ∈ ladders h) :
    b.queueAt h rung.1 = rung.2 := by
  rcases List.append_of_mem member with ⟨l₁, l₂, split⟩
  rw [settled.queueAt_eq h, filter_orders (settled.priced h) (settled.prices_nodup h) split]

theorem Settled.exact (settled : Settled b cap ladders) (h : Half) : Exact b h (b.l2 h) := by
  have short := settled.orders_short
  rw [settled.l2_eq h]
  refine ⟨?_, ?_, ?_⟩
  · rw [List.pairwise_map]
    refine (settled.sorted h).imp ?_
    intro rung later ordered
    rw [PriceTime.better_eq_before]
    exact ordered
  · intro price
    constructor
    · intro found
      rcases found with ⟨l, member, rfl⟩
      rcases List.mem_map.mp member with ⟨rung, inside, rfl⟩
      rw [show (rungLevel h rung).price = rung.1 from rfl, settled.rung_queue inside]
      exact settled.inhabited h rung inside
    · intro waiting
      rcases List.exists_mem_of_ne_nil _ waiting with ⟨o, held⟩
      rw [settled.queueAt_eq h, List.mem_filter, decide_eq_true_eq] at held
      rcases List.mem_flatMap.mp held.1 with ⟨rung, inside, queued⟩
      refine ⟨rungLevel h rung, List.mem_map_of_mem inside, ?_⟩
      rw [← held.2, settled.priced h rung inside o queued]
      rfl
  · intro l member
    rcases List.mem_map.mp member with ⟨rung, inside, rfl⟩
    have part := rung_length_le inside
    have few : rung.2.length < 2 ^ 32 := by
      cases h <;> omega
    rw [show (rungLevel h rung).price = rung.1 from rfl, settled.rung_queue inside]
    refine ⟨?_, ?_, rfl⟩
    · rw [rungLevel, UInt64.toNat_ofNat', Nat.mod_eq_of_lt (quantity_lt _ few)]
    · rw [rungLevel, UInt32.toNat_ofNat', Nat.mod_eq_of_lt few]

theorem serializeL2_spec (settled : Settled b cap ladders) {maxLevels : Nat} (fits : maxLevels < 2 ^ 33) (buf : SnapshotBuffer)
    (feedSeq : UInt64) :
    ∃ buf', b.serializeL2 maxLevels buf feedSeq = some buf' ∧
      Holding maxLevels feedSeq buf' ((b.l2 .bids).take (maxLevels / 2)) ((b.l2 .asks).take (maxLevels / 2)) := by
  have short := settled.orders_short
  have bids := ladder_length_le (settled.inhabited .bids)
  have asks := ladder_length_le (settled.inhabited .asks)
  have half : (UInt32.ofNat (maxLevels / 2)).toNat = maxLevels / 2 := by
    rw [UInt32.toNat_ofNat', Nat.mod_eq_of_lt (by omega)]
  have empty : Emitter.Holds { levels := buf.levels, n := 0, chk := 0 } [] := ⟨rfl, by simp, rfl⟩
  rcases settled.rep with ⟨L, rep, rfl⟩
  have walk : ∀ h, Walk (b.maps h).succ NIL (b.maps h).begin_ (L.tree h).inorder := fun h => (rep.valid h).sound.forward
  have size : ∀ h, (b.maps h).size_ = (L.tree h).inorder.length := by
    intro h
    rw [(rep.valid h).count, RBTree.inorder_length]
  have count : ∀ h, (L.ladder b h).length = (L.tree h).inorder.length := by
    intro h
    rw [Layout.ladder, Layout.rungs, List.length_map]
  have listed : ∀ h k, ((L.tree h).inorder.take k).map (fun i => SnapshotLevel.of h.snapshotSide (b.level h i)) =
      (b.l2 h).take k := by
    intro h k
    rw [l2, rep.iterate_eq, List.map_take]
  rw [count] at bids asks
  rcases emitHalf_spec maxLevels ((b.maps .bids).size_ + 1) (k := 0) empty (walk .bids)
    (by rw [size]; omega) (Nat.zero_le _) (by simp; omega) (by rw [half]; simp; omega) with ⟨e₁, emitted₁, holds₁⟩
  rw [half, Nat.sub_zero, listed, List.nil_append] at holds₁
  rw [half, Nat.sub_zero, Nat.zero_add, ← List.length_map (fun i => SnapshotLevel.of Half.bids.snapshotSide (b.level .bids i)),
    listed] at emitted₁
  have first : ((b.l2 .bids).take (maxLevels / 2)).length ≤ maxLevels / 2 := List.length_take_le _ _
  have all : ∀ h, ((b.l2 h).take (maxLevels / 2)).length ≤ (L.tree h).inorder.length := by
    intro h
    rw [← listed h, List.length_map]
    exact List.length_take_le' _ _
  rcases emitHalf_spec maxLevels ((b.maps .asks).size_ + 1) (k := 0) holds₁ (walk .asks)
    (by rw [size]; omega) (Nat.zero_le _) (by have := all .bids; omega) (by rw [half]; omega) with ⟨e₂, emitted₂, holds₂⟩
  rw [half, Nat.sub_zero, listed] at holds₂
  rw [half, Nat.sub_zero, Nat.zero_add, ← List.length_map (fun i => SnapshotLevel.of Half.asks.snapshotSide (b.level .asks i)),
    listed] at emitted₂
  refine ⟨{ header := { magic := SNAPSHOT_MAGIC, version := SNAPSHOT_VERSION, levelCount := e₂.n, feedSeq := feedSeq,
                        bidLevels := UInt32.ofNat ((b.l2 .bids).take (maxLevels / 2)).length,
                        askLevels := UInt32.ofNat ((b.l2 .asks).take (maxLevels / 2)).length, checksum := e₂.chk }
            levels := e₂.levels }, ?_, ?_, holds₂.levels, ?_, ?_⟩
  · rw [show UInt32.ofNat 0 = 0 from rfl] at emitted₁ emitted₂
    simp only [serializeL2, emitted₁, emitted₂, Option.bind_eq_bind, Option.bind_some]
  · rw [holds₂.count, holds₂.chk, List.length_append]
    rfl
  · have second : ((b.l2 .asks).take (maxLevels / 2)).length ≤ maxLevels / 2 := List.length_take_le _ _
    omega
  · have := all .bids
    have := all .asks
    omega

end OrderBook

end Titan
