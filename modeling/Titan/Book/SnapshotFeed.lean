import Titan.Book.Snapshot

namespace Titan

open LittleEndian (pack unpack signed unpack_pack pack_length signed_toUInt64)
open OrderBook (Holding snapshotHeader checksum checksum_cons Exact)

namespace SnapshotBuffer

/-- The header as it lies in memory: the width and the value of each field. -/
def headerFields (h : SnapshotHeader) : List (Nat × Nat) :=
  [(8, h.magic.toNat), (4, h.version.toNat), (4, h.levelCount.toNat), (8, h.feedSeq.toNat), (4, h.bidLevels.toNat),
    (4, h.askLevels.toNat), (8, h.checksum.toNat), (24, 0)]

def levelFields (l : SnapshotLevel) : List (Nat × Nat) :=
  [(8, l.price.toUInt64.toNat), (8, l.totalQty.toNat), (4, l.orderCount.toNat), (1, l.side.toNat), (3, 0)]

def bytes (maxLevels : Nat) (buf : SnapshotBuffer) : List UInt8 :=
  pack (headerFields buf.header) ++ (List.range maxLevels).flatMap fun i => pack (levelFields (buf.levels i))

def datagram (maxLevels : Nat) (buf : SnapshotBuffer) : List UInt8 :=
  (bytes maxLevels buf).take (64 + 24 * buf.header.levelCount.toNat)

end SnapshotBuffer

open SnapshotBuffer

structure LevelRow where
  price : Int
  totalQty : Nat
  orderCount : Nat
  side : Nat
  deriving DecidableEq, Repr, Inhabited

/-- The three numbers the user interface keeps. -/
def LevelRow.cells (row : LevelRow) : Int × Nat × Nat := (row.price, row.totalQty, row.orderCount)

def SnapshotLevel.row (l : SnapshotLevel) : LevelRow where
  price := l.price.toInt
  totalQty := l.totalQty.toNat
  orderCount := l.orderCount.toNat
  side := l.side.toNat

namespace Decoder

/-- `<QIIQIIQ24x` and `<qQIB3x`. -/
def SNAP_HDR_FMT : List Nat := [8, 4, 4, 8, 4, 4, 8, 24]
def SNAP_LVL_FMT : List Nat := [8, 8, 4, 1, 3]

def SNAP_HDR_SZ : Nat := 64
def SNAP_LVL_SZ : Nat := 24

def unpackLevel (data : List UInt8) (off : Nat) : LevelRow :=
  match unpack SNAP_LVL_FMT (data.drop off) with
  | [price, totalQty, orderCount, side, _] =>
    { price := signed price, totalQty := totalQty, orderCount := orderCount, side := side }
  | _ => default

def readLevels (data : List UInt8) (count : Nat) : List LevelRow :=
  (List.range count).map fun i => unpackLevel data (SNAP_HDR_SZ + i * SNAP_LVL_SZ)

structure Sample where
  feedSeq : Nat
  lvlCount : Nat
  bids : Nat
  asks : Nat
  firstLvl : Option LevelRow
  deriving DecidableEq, Repr

def MASK64 : Nat := 0xFFFFFFFFFFFFFFFF

/-- Masking with `MASK64` is the residue, also of a negative price. -/
def addLevel (chk : Nat) (row : LevelRow) : Nat :=
  (chk + (row.price % (MASK64 + 1)).toNat + row.totalQty + row.orderCount + row.side) % (MASK64 + 1)

/-- One datagram in `run_snapshot` of `mc_listener.py`; `none` counts as bad. -/
def runSnapshot (data : List UInt8) : Option Sample :=
  if data.length < SNAP_HDR_SZ then none
  else
    match unpack SNAP_HDR_FMT data with
    | [magic, _, lvlCount, feedSeq, bids, asks, chk, _] =>
      if magic ≠ SNAPSHOT_MAGIC.toNat ∨ data.length < SNAP_HDR_SZ + lvlCount * SNAP_LVL_SZ then none
      else
        let rows := readLevels data lvlCount
        if rows.foldl addLevel 0 ≠ chk then none
        else some { feedSeq := feedSeq, lvlCount := lvlCount, bids := bids, asks := asks, firstLvl := rows.head? }
    | _ => none

structure UiBook where
  bids : List (Int × Nat × Nat)
  asks : List (Int × Nat × Nat)
  bookSeq : Nat
  deriving DecidableEq, Repr

def onSnapshot (bookDepth : Nat) (data : List UInt8) : Option UiBook :=
  if data.length < SNAP_HDR_SZ then none
  else
    match unpack SNAP_HDR_FMT data with
    | [magic, _, lvls, seq, _, _, _, _] =>
      if magic ≠ SNAPSHOT_MAGIC.toNat ∨ data.length < SNAP_HDR_SZ + lvls * SNAP_LVL_SZ then none
      else
        let rows := readLevels data lvls
        some
          { bids := ((rows.filter fun row => row.side = 0).map LevelRow.cells).take bookDepth
            asks := ((rows.filter fun row => ¬row.side = 0).map LevelRow.cells).take bookDepth
            bookSeq := seq }
    | _ => none

/-- The best bid and the best ask that `snapshot_thread` of the market maker stores. -/
def snapshotThread (data : List UInt8) : Option (Int × Int) :=
  if data.length < SNAP_HDR_SZ then none
  else
    match unpack SNAP_HDR_FMT data with
    | [magic, _, levelCount, _, bidLevels, askLevels, _, _] =>
      if magic ≠ SNAPSHOT_MAGIC.toNat then none
      else
        let got := (data.length - SNAP_HDR_SZ) / SNAP_LVL_SZ
        let nlv := if levelCount < got then levelCount else got
        if nlv = 0 then none
        else if bidLevels > 0 ∧ askLevels > 0 ∧ bidLevels < nlv then
          some ((unpackLevel data SNAP_HDR_SZ).price, (unpackLevel data (SNAP_HDR_SZ + bidLevels * SNAP_LVL_SZ)).price)
        else none
    | _ => none

section Wire

variable {maxLevels : Nat} {feedSeq : UInt64} {buf : SnapshotBuffer} {bids asks levels : List SnapshotLevel}

theorem headerFields_length (h : SnapshotHeader) : (pack (headerFields h)).length = 64 := by
  rw [pack_length]
  rfl

theorem levelFields_length (l : SnapshotLevel) : (pack (levelFields l)).length = 24 := by
  rw [pack_length]
  rfl

theorem headerFields_fit (h : SnapshotHeader) : ∀ field ∈ headerFields h, field.2 < 256 ^ field.1 := by
  intro field member
  simp only [headerFields, List.mem_cons, List.not_mem_nil, or_false] at member
  rcases member with rfl | rfl | rfl | rfl | rfl | rfl | rfl | rfl
  · exact h.magic.toNat_lt
  · exact h.version.toNat_lt
  · exact h.levelCount.toNat_lt
  · exact h.feedSeq.toNat_lt
  · exact h.bidLevels.toNat_lt
  · exact h.askLevels.toNat_lt
  · exact h.checksum.toNat_lt
  · decide

theorem levelFields_fit (l : SnapshotLevel) : ∀ field ∈ levelFields l, field.2 < 256 ^ field.1 := by
  intro field member
  simp only [levelFields, List.mem_cons, List.not_mem_nil, or_false] at member
  rcases member with rfl | rfl | rfl | rfl | rfl
  · exact l.price.toUInt64.toNat_lt
  · exact l.totalQty.toNat_lt
  · exact l.orderCount.toNat_lt
  · exact l.side.toNat_lt
  · decide

theorem datagram_eq (holding : Holding maxLevels feedSeq buf bids asks) :
    datagram maxLevels buf = pack (headerFields (snapshotHeader feedSeq bids asks)) ++
      (bids ++ asks).flatMap fun l => pack (levelFields l) := by
  have count : buf.header.levelCount.toNat = bids.length + asks.length := by
    rw [holding.header, snapshotHeader, UInt32.toNat_ofNat', Nat.mod_eq_of_lt holding.small]
  have read : (List.range (bids.length + asks.length)).map buf.levels = bids ++ asks := by
    apply List.ext_getElem?
    intro i
    by_cases low : i < bids.length + asks.length
    · have held : (bids ++ asks)[i]? = some ((bids ++ asks).get ⟨i, by rw [List.length_append]; exact low⟩) :=
        List.getElem?_eq_getElem _
      rw [List.getElem?_map, List.getElem?_range low, Option.map_some, holding.levels i _ held, held]
    · rw [List.getElem?_eq_none (by simp; omega), List.getElem?_eq_none (by simp; omega)]
  have size : ∀ i : Nat, (pack (levelFields (buf.levels i))).length = 24 := fun i => levelFields_length _
  rw [datagram, bytes, count, List.take_append, headerFields_length, Nat.add_sub_cancel_left,
    List.take_of_length_le (by rw [headerFields_length]; omega), LittleEndian.take_flatMap size, List.take_range,
    Nat.min_eq_left holding.fits, holding.header, ← read, List.flatMap_map]

theorem unpack_header (h : SnapshotHeader) (rest : List UInt8) :
    unpack SNAP_HDR_FMT (pack (headerFields h) ++ rest) =
      [h.magic.toNat, h.version.toNat, h.levelCount.toNat, h.feedSeq.toNat, h.bidLevels.toNat, h.askLevels.toNat,
        h.checksum.toNat, 0] := unpack_pack (headerFields_fit h) rest

theorem unpackLevel_eq {i : Nat} {l : SnapshotLevel} (h : SnapshotHeader) (held : levels[i]? = some l) :
    unpackLevel (pack (headerFields h) ++ levels.flatMap fun l => pack (levelFields l)) (SNAP_HDR_SZ + i * SNAP_LVL_SZ) =
      l.row := by
  rcases List.getElem?_eq_some_iff.mp held with ⟨low, value⟩
  have tail : (pack (headerFields h) ++ levels.flatMap fun l => pack (levelFields l)).drop (SNAP_HDR_SZ + i * SNAP_LVL_SZ) =
      pack (levelFields l) ++ (levels.drop (i + 1)).flatMap fun l => pack (levelFields l) := by
    rw [← List.drop_drop, SNAP_HDR_SZ, List.drop_left' (headerFields_length h), Nat.mul_comm, SNAP_LVL_SZ,
      LittleEndian.drop_flatMap levelFields_length, List.drop_eq_getElem_cons low, value, List.flatMap_cons]
  have fields := unpack_pack (levelFields_fit l) ((levels.drop (i + 1)).flatMap fun l => pack (levelFields l))
  rw [unpackLevel, tail, show SNAP_LVL_FMT = (levelFields l).map Prod.fst from rfl, fields]
  simp only [levelFields, List.map_cons, List.map_nil, signed_toUInt64]
  rfl

theorem readLevels_eq (h : SnapshotHeader) (levels : List SnapshotLevel) :
    readLevels (pack (headerFields h) ++ levels.flatMap fun l => pack (levelFields l)) levels.length =
      levels.map SnapshotLevel.row := by
  apply List.ext_getElem?
  intro i
  rw [readLevels, List.getElem?_map, List.getElem?_map]
  by_cases low : i < levels.length
  · have held : levels[i]? = some levels[i] := List.getElem?_eq_getElem low
    rw [List.getElem?_range low, Option.map_some, unpackLevel_eq h held, held, Option.map_some]
  · rw [List.getElem?_eq_none (by simp; omega), List.getElem?_eq_none (by omega)]
    rfl

theorem addLevel_eq (chk : UInt64) (l : SnapshotLevel) : addLevel chk.toNat l.row = (chk + l.weight).toNat := by
  have price : (l.price.toInt % (MASK64 + 1)).toNat = l.price.toUInt64.toNat := by
    have bound := l.price.toUInt64.toNat_lt
    rw [← signed_toUInt64, signed, MASK64]
    split <;> omega
  rw [addLevel, SnapshotLevel.row, price, SnapshotLevel.weight, MASK64]
  simp only [UInt64.toNat_add, UInt32.toNat_toUInt64, UInt8.toNat_toUInt64]
  omega

theorem foldl_addLevel (chk : UInt64) (levels : List SnapshotLevel) :
    (levels.map SnapshotLevel.row).foldl addLevel chk.toNat = (chk + checksum levels).toNat := by
  induction levels generalizing chk with
  | nil =>
    rw [List.map_nil, List.foldl_nil, checksum, List.foldr_nil, UInt64.add_zero]
  | cons l rest ih =>
    rw [List.map_cons, List.foldl_cons, addLevel_eq, ih, checksum_cons, UInt64.add_assoc]

theorem datagram_length (holding : Holding maxLevels feedSeq buf bids asks) :
    (datagram maxLevels buf).length = SNAP_HDR_SZ + (bids.length + asks.length) * SNAP_LVL_SZ := by
  rw [datagram_eq holding, List.length_append, headerFields_length, LittleEndian.length_flatMap levelFields_length,
    List.length_append, Nat.mul_comm]
  rfl

theorem unpack_datagram (holding : Holding maxLevels feedSeq buf bids asks) :
    unpack SNAP_HDR_FMT (datagram maxLevels buf) =
      [SNAPSHOT_MAGIC.toNat, SNAPSHOT_VERSION.toNat, bids.length + asks.length, feedSeq.toNat, bids.length, asks.length,
        (checksum (bids ++ asks)).toNat, 0] := by
  have small := holding.small
  have cast : ∀ k ≤ bids.length + asks.length, (UInt32.ofNat k).toNat = k := by
    intro k low
    rw [UInt32.toNat_ofNat', Nat.mod_eq_of_lt (by omega)]
  rw [datagram_eq holding, unpack_header]
  simp only [snapshotHeader, cast _ (Nat.le_refl _), cast bids.length (Nat.le_add_right _ _),
    cast asks.length (Nat.le_add_left _ _)]

theorem readLevels_datagram (holding : Holding maxLevels feedSeq buf bids asks) :
    readLevels (datagram maxLevels buf) (bids.length + asks.length) = (bids ++ asks).map SnapshotLevel.row := by
  rw [datagram_eq holding, ← List.length_append, readLevels_eq]

theorem runSnapshot_eq (holding : Holding maxLevels feedSeq buf bids asks) :
    runSnapshot (datagram maxLevels buf) =
      some { feedSeq := feedSeq.toNat, lvlCount := bids.length + asks.length, bids := bids.length, asks := asks.length,
             firstLvl := (bids ++ asks).head?.map SnapshotLevel.row } := by
  have length := datagram_length holding
  have sum := foldl_addLevel 0 (bids ++ asks)
  rw [UInt64.zero_add, UInt64.toNat_zero] at sum
  rw [runSnapshot, if_neg (by rw [length]; omega), unpack_datagram holding]
  simp only [ne_eq, not_true_eq_false, length, Nat.lt_irrefl, or_self, if_false, readLevels_datagram holding, sum,
    List.head?_map]

theorem filter_sides (bidding : ∀ l ∈ bids, l.side = 0) (asking : ∀ l ∈ asks, l.side = 1) :
    ((bids ++ asks).map SnapshotLevel.row).filter (fun row => row.side = 0) = bids.map SnapshotLevel.row ∧
      ((bids ++ asks).map SnapshotLevel.row).filter (fun row => ¬row.side = 0) = asks.map SnapshotLevel.row := by
  have bid : ∀ row ∈ bids.map SnapshotLevel.row, row.side = 0 := by
    intro row member
    rcases List.mem_map.mp member with ⟨l, inside, rfl⟩
    rw [SnapshotLevel.row, bidding l inside]
    rfl
  have ask : ∀ row ∈ asks.map SnapshotLevel.row, ¬row.side = 0 := by
    intro row member
    rcases List.mem_map.mp member with ⟨l, inside, rfl⟩
    rw [SnapshotLevel.row, asking l inside]
    exact Nat.one_ne_zero
  rw [List.map_append, List.filter_append, List.filter_append]
  constructor
  · rw [List.filter_eq_self.mpr fun row member => decide_eq_true (bid row member),
      List.filter_eq_nil_iff.mpr fun row member same => ask row member (of_decide_eq_true same), List.append_nil]
  · have none : (bids.map SnapshotLevel.row).filter (fun row => ¬row.side = 0) = [] := by
      apply List.filter_eq_nil_iff.mpr
      intro row member
      simp [bid row member]
    rw [none, List.filter_eq_self.mpr fun row member => decide_eq_true (ask row member), List.nil_append]

theorem onSnapshot_eq (bookDepth : Nat) (holding : Holding maxLevels feedSeq buf bids asks) (bidding : ∀ l ∈ bids, l.side = 0)
    (asking : ∀ l ∈ asks, l.side = 1) :
    onSnapshot bookDepth (datagram maxLevels buf) =
      some { bids := (bids.map fun l => l.row.cells).take bookDepth
             asks := (asks.map fun l => l.row.cells).take bookDepth
             bookSeq := feedSeq.toNat } := by
  have length := datagram_length holding
  rcases filter_sides bidding asking with ⟨bid, ask⟩
  rw [onSnapshot, if_neg (by rw [length]; omega), unpack_datagram holding]
  simp only [ne_eq, not_true_eq_false, length, Nat.lt_irrefl, or_self, if_false, readLevels_datagram holding, bid, ask,
    List.map_map]
  rfl

theorem snapshotThread_eq (holding : Holding maxLevels feedSeq buf bids asks) :
    snapshotThread (datagram maxLevels buf) =
      match bids.head?, asks.head? with
      | some bid, some ask => some (bid.price.toInt, ask.price.toInt)
      | _, _ => none := by
  have length := datagram_length holding
  have got : ((datagram maxLevels buf).length - SNAP_HDR_SZ) / SNAP_LVL_SZ = bids.length + asks.length := by
    rw [length, Nat.add_sub_cancel_left, Nat.mul_div_cancel _ (by decide)]
  rw [snapshotThread, if_neg (by rw [length]; omega), unpack_datagram holding]
  simp only [ne_eq, not_true_eq_false, if_false, got, Nat.lt_irrefl]
  cases bids with
  | nil => simp
  | cons bid more =>
    cases asks with
    | nil => simp
    | cons ask rest =>
      have first : ((bid :: more) ++ (ask :: rest))[0]? = some bid := rfl
      have next : ((bid :: more) ++ (ask :: rest))[(bid :: more).length]? = some ask := by
        rw [List.getElem?_append_right (Nat.le_refl _), Nat.sub_self]
        rfl
      have best := unpackLevel_eq (snapshotHeader feedSeq (bid :: more) (ask :: rest)) first
      have other := unpackLevel_eq (snapshotHeader feedSeq (bid :: more) (ask :: rest)) next
      rw [Nat.zero_mul, Nat.add_zero] at best
      rw [datagram_eq holding, best, other]
      simp [SnapshotLevel.row]

end Wire

end Decoder

end Titan
