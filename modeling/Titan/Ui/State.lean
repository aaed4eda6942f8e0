import Titan.Book.SnapshotFeed
import Titan.Data.Groups
import Titan.Net.Multicast

namespace Titan

open LittleEndian
open Groups (groups)

namespace Ui

def TAPE_MAX : Nat := 64
def CANDLE_MAX : Nat := 180

/-- A trade as `TRADE.unpack_from` gives it, without the two ids, which nothing reads. -/
structure TradeRow where
  price : Int
  seq : Nat
  qty : Nat
  side : Nat
  status : Nat
  deriving DecidableEq, Repr, Inhabited

/-- What `dict.get(code, code)` finds: a text, or the code itself. -/
abbrev Label := String ⊕ Nat

def SIDE (code : Nat) : Label := if code = 0 then .inl "BUY" else if code = 1 then .inl "SELL" else .inr code
def STATUS (code : Nat) : Label := if code = 0 then .inl "FILL" else if code = 1 then .inl "REJECT" else .inr code

structure TapeEntry where
  seq : Nat
  price : Int
  qty : Nat
  side : Label
  status : Label
  deriving DecidableEq

structure Bar where
  time : Int
  open_ : Int
  high : Int
  low : Int
  close : Int
  volume : Nat
  deriving DecidableEq, Inhabited

/-- `State`, less the telemetry of the bots. The tape starts with the newest trade, and the candles
    with the oldest. -/
structure State where
  bids : List (Int × Nat × Nat) := []
  asks : List (Int × Nat × Nat) := []
  bookSeq : Nat := 0
  snaps : Nat := 0
  tape : List TapeEntry := []
  trades : Nat := 0
  rejects : Nat := 0
  volume : Nat := 0
  lastPrice : Option Int := none
  candles : List Bar := []
  curBar : Option Bar := none
  deriving DecidableEq

structure Fill where
  time : Int
  price : Int
  qty : Nat
  deriving DecidableEq

/-- `append` to a deque of at most `maxlen` items, which lets go of the oldest. -/
def append {α : Type} (maxlen : Nat) (deque : List α) (a : α) : List α := (deque ++ [a]).drop ((deque ++ [a]).length - maxlen)

def appendleft {α : Type} (maxlen : Nat) (a : α) (deque : List α) : List α := (a :: deque).take maxlen

def Bar.single (fill : Fill) : Bar where
  time := fill.time
  open_ := fill.price
  high := fill.price
  low := fill.price
  close := fill.price
  volume := fill.qty

def Bar.extend (bar : Bar) (fill : Fill) : Bar :=
  { bar with
    high := if fill.price > bar.high then fill.price else bar.high
    low := if fill.price < bar.low then fill.price else bar.low
    close := fill.price
    volume := bar.volume + fill.qty }

namespace State

def addToBar (s : State) (fill : Fill) : State :=
  match s.curBar with
  | none => { s with curBar := some (Bar.single fill) }
  | some bar =>
    if fill.time ≠ bar.time then
      { s with candles := append CANDLE_MAX s.candles bar, curBar := some (Bar.single fill) }
    else { s with curBar := some (bar.extend fill) }

end State

def TRADE_FMT : List Nat := [8, 8, 8, 8, 4, 1, 1, 2]

def TRADE_SZ : Nat := 40

def unpackTrade (data : List UInt8) (off : Nat) : TradeRow :=
  match unpack TRADE_FMT (data.drop off) with
  | [_, _, price, seq, qty, side, status, _] =>
    { price := signed price, seq := seq, qty := qty, side := side, status := status }
  | _ => default

/-- The records of a datagram. What follows the last whole one is not looked at. -/
def rows (data : List UInt8) : List TradeRow :=
  (List.range (data.length / TRADE_SZ)).map fun i => unpackTrade data (i * TRADE_SZ)

def TradeRow.entry (row : TradeRow) : TapeEntry where
  seq := row.seq
  price := row.price
  qty := row.qty
  side := SIDE row.side
  status := STATUS row.status

namespace State

/-- One round of the loop of `on_trades`. The clock is read once for each fill: `clock k` is the second
    in which the fill number `k` arrives. -/
def onTrade (clock : Nat → Int) (s : State) (row : TradeRow) : State :=
  let s :=
    if row.status = 0 then
      ({ s with trades := s.trades + 1, volume := s.volume + row.qty, lastPrice := some row.price } : State).addToBar
        { time := clock s.trades, price := row.price, qty := row.qty }
    else { s with rejects := s.rejects + 1 }
  { s with tape := appendleft TAPE_MAX row.entry s.tape }

def onTrades (clock : Nat → Int) (s : State) (data : List UInt8) : State := (rows data).foldl (onTrade clock) s

def onSnapshot (bookDepth : Nat) (s : State) (data : List UInt8) : State :=
  match Decoder.onSnapshot bookDepth data with
  | none => s
  | some book => { s with bids := book.bids, asks := book.asks, bookSeq := book.bookSeq, snaps := s.snaps + 1 }

end State

inductive Datagram
  | trades (data : List UInt8)
  | snapshot (data : List UInt8)

def State.receive (clock : Nat → Int) (bookDepth : Nat) (s : State) : Datagram → State
  | .trades data => s.onTrades clock data
  | .snapshot data => s.onSnapshot bookDepth data

variable {clock : Nat → Int} {bookDepth : Nat} {past : List TradeRow} {s : State}

def fills (clock : Nat → Int) (past : List TradeRow) : List Fill :=
  (past.filter fun row => decide (row.status = 0)).zipIdx.map fun (row, k) => { time := clock k, price := row.price, qty := row.qty }

def Bar.of : List Fill → Bar
  | [] => default
  | fill :: rest =>
    { time := fill.time
      open_ := fill.price
      high := (rest.map Fill.price).foldl max fill.price
      low := (rest.map Fill.price).foldl min fill.price
      close := (rest.getLast?.getD fill).price
      volume := ((fill :: rest).map Fill.qty).sum }

def bars (clock : Nat → Int) (past : List TradeRow) : List Bar := (groups Fill.time (fills clock past)).map Bar.of

def latest {α : Type} (maxlen : Nat) (l : List α) : List α := l.drop (l.length - maxlen)

/-- The state after these records. -/
structure Reflects (clock : Nat → Int) (past : List TradeRow) (s : State) : Prop where
  trades : s.trades = (past.filter fun row => decide (row.status = 0)).length
  rejects : s.rejects = (past.filter fun row => decide (row.status ≠ 0)).length
  volume : s.volume = ((past.filter fun row => decide (row.status = 0)).map TradeRow.qty).sum
  lastPrice : s.lastPrice = (past.filter fun row => decide (row.status = 0)).getLast?.map TradeRow.price
  tape : s.tape = (past.reverse.take TAPE_MAX).map TradeRow.entry
  candles : s.candles = latest CANDLE_MAX (bars clock past).dropLast
  curBar : s.curBar = (bars clock past).getLast?

def tally (fills : List Fill) : Groups.Acc Bar := fills.foldl (Groups.Acc.push Fill.time Bar.time Bar.single Bar.extend) {}

theorem Bar.of_concat (g : List Fill) (fill : Fill) (some : g ≠ []) : Bar.of (g ++ [fill]) = (Bar.of g).extend fill := by
  cases g with
  | nil => exact absurd rfl some
  | cons first rest =>
    have high : ∀ p q : Int, max p q = if q > p then q else p := by
      intro p q
      split <;> omega
    have low : ∀ p q : Int, min p q = if q < p then q else p := by
      intro p q
      split <;> omega
    simp only [List.cons_append, Bar.of, Bar.extend, List.map_append, List.map_cons, List.map_nil, List.foldl_append, List.foldl_cons,
      List.foldl_nil, high, low, List.getLast?_concat, Option.getD_some, List.sum_cons, List.sum_append, List.sum_nil, Nat.add_zero,
      Nat.add_assoc]

theorem Bar.of_time {g : List Fill} {fill : Fill} (last : g.getLast? = some fill) (same : ∀ other ∈ g, other.time = fill.time) :
    (Bar.of g).time = fill.time := by
  cases g with
  | nil => cases last
  | cons first rest => exact same first List.mem_cons_self

theorem tally_eq (fills : List Fill) :
    tally fills = { done := ((groups Fill.time fills).map Bar.of).dropLast, cur := ((groups Fill.time fills).map Bar.of).getLast? } :=
  Groups.foldl_push Bar.of (fun _ => rfl) Bar.of_concat (fun _ _ last same => Bar.of_time last same) fills

theorem fills_concat_fill (clock : Nat → Int) (past : List TradeRow) {row : TradeRow} (fill : row.status = 0) :
    fills clock (past ++ [row]) = fills clock past ++
      [{ time := clock (past.filter fun row => decide (row.status = 0)).length, price := row.price, qty := row.qty }] := by
  rw [fills, List.filter_append, List.filter_singleton, decide_eq_true fill, cond_true, List.zipIdx_append, List.map_append, fills]
  simp

theorem fills_concat_reject (clock : Nat → Int) (past : List TradeRow) {row : TradeRow} (reject : row.status ≠ 0) :
    fills clock (past ++ [row]) = fills clock past := by
  rw [fills, List.filter_append, List.filter_singleton, decide_eq_false reject, cond_false, List.append_nil, fills]

theorem append_latest {α : Type} (maxlen : Nat) (l : List α) (a : α) :
    append maxlen (latest maxlen l) a = latest maxlen (l ++ [a]) := by
  have inside : l.length - maxlen ≤ l.length := Nat.sub_le ..
  rw [append, latest, ← List.drop_append_of_le_length inside, List.drop_drop, List.length_drop, latest, List.length_append,
    List.length_singleton]
  congr 1
  omega

theorem appendleft_take {α : Type} (maxlen : Nat) (l : List α) (a : α) :
    appendleft maxlen a (l.take maxlen) = (a :: l).take maxlen := by
  rw [appendleft]
  cases maxlen with
  | zero => rfl
  | succ m => rw [List.take_succ_cons, List.take_succ_cons, List.take_take, Nat.min_eq_left (Nat.le_succ m)]

theorem addToBar_tally (s : State) (past : List Fill) (candles : s.candles = latest CANDLE_MAX (tally past).done)
    (curBar : s.curBar = (tally past).cur) (fill : Fill) :
    (s.addToBar fill).candles = latest CANDLE_MAX (tally (past ++ [fill])).done ∧
      (s.addToBar fill).curBar = (tally (past ++ [fill])).cur := by
  have next : tally (past ++ [fill]) = (tally past).push Fill.time Bar.time Bar.single Bar.extend fill := by
    rw [tally, List.foldl_append]
    rfl
  rw [next, State.addToBar, Groups.Acc.push, curBar]
  cases (tally past).cur with
  | none => exact ⟨candles, rfl⟩
  | some bar =>
    by_cases same : bar.time = fill.time
    · simp only [same, ne_eq, not_true_eq_false, if_false, if_true]
      exact ⟨candles, trivial⟩
    · have other : fill.time ≠ bar.time := fun back => same back.symm
      simp only [if_pos other, if_neg same, candles]
      exact ⟨append_latest .., trivial⟩

theorem addToBar_keeps (s : State) (fill : Fill) :
    (s.addToBar fill).trades = s.trades ∧ (s.addToBar fill).rejects = s.rejects ∧ (s.addToBar fill).volume = s.volume ∧
      (s.addToBar fill).lastPrice = s.lastPrice ∧ (s.addToBar fill).tape = s.tape ∧ (s.addToBar fill).bids = s.bids ∧
      (s.addToBar fill).asks = s.asks ∧ (s.addToBar fill).bookSeq = s.bookSeq ∧ (s.addToBar fill).snaps = s.snaps := by
  rw [State.addToBar]
  split
  · exact ⟨rfl, rfl, rfl, rfl, rfl, rfl, rfl, rfl, rfl⟩
  · split <;> exact ⟨rfl, rfl, rfl, rfl, rfl, rfl, rfl, rfl, rfl⟩

theorem onTrade_reflects (reflects : Reflects clock past s) (row : TradeRow) :
    Reflects clock (past ++ [row]) (s.onTrade clock row) := by
  have candles := reflects.candles
  have curBar := reflects.curBar
  have tape : appendleft TAPE_MAX row.entry s.tape = ((past ++ [row]).reverse.take TAPE_MAX).map TradeRow.entry := by
    rw [reflects.tape, List.map_take, appendleft_take, List.reverse_append, List.map_take]
    rfl
  rw [State.onTrade]
  by_cases fill : row.status = 0
  · have taken : (past ++ [row]).filter (fun row => decide (row.status = 0)) =
        past.filter (fun row => decide (row.status = 0)) ++ [row] := by
      simp [fill]
    have refused : (past ++ [row]).filter (fun row => decide (row.status ≠ 0)) = past.filter (fun row => decide (row.status ≠ 0)) := by
      simp [fill]
    rcases addToBar_keeps { s with trades := s.trades + 1, volume := s.volume + row.qty, lastPrice := some row.price }
      { time := clock s.trades, price := row.price, qty := row.qty } with ⟨trades, rejects, volume, lastPrice, same, -⟩
    rcases addToBar_tally { s with trades := s.trades + 1, volume := s.volume + row.qty, lastPrice := some row.price }
      (fills clock past) (by rw [tally_eq]; exact candles) (by rw [tally_eq]; exact curBar)
      { time := clock s.trades, price := row.price, qty := row.qty } with ⟨candles', curBar'⟩
    have extended := fills_concat_fill clock past fill
    rw [← reflects.trades] at extended
    rw [← extended, tally_eq] at candles' curBar'
    rw [if_pos fill]
    refine ⟨?_, ?_, ?_, ?_, by rw [same]; exact tape, candles', curBar'⟩
    · rw [taken, List.length_append, ← reflects.trades]
      exact trades
    · rw [refused, ← reflects.rejects]
      exact rejects
    · rw [taken, List.map_append, List.sum_append, ← reflects.volume]
      exact volume
    · rw [taken, List.getLast?_concat]
      exact lastPrice
  · have taken : (past ++ [row]).filter (fun row => decide (row.status = 0)) = past.filter (fun row => decide (row.status = 0)) := by
      simp [fill]
    have refused : (past ++ [row]).filter (fun row => decide (row.status ≠ 0)) =
        past.filter (fun row => decide (row.status ≠ 0)) ++ [row] := by
      simp [fill]
    have unchanged := fills_concat_reject clock past fill
    rw [if_neg fill]
    refine ⟨?_, ?_, ?_, ?_, tape, ?_, ?_⟩
    · rw [taken, ← reflects.trades]
    · rw [refused, List.length_append, ← reflects.rejects]
      rfl
    · rw [taken, ← reflects.volume]
    · rw [taken, ← reflects.lastPrice]
    · rw [bars, unchanged]
      exact candles
    · rw [bars, unchanged]
      exact curBar

def Datagram.rows : Datagram → List TradeRow
  | .trades data => Ui.rows data
  | .snapshot _ => []

def Datagram.book (bookDepth : Nat) : Datagram → Option Decoder.UiBook
  | .trades _ => none
  | .snapshot data => Decoder.onSnapshot bookDepth data

structure Displays (books : List Decoder.UiBook) (s : State) : Prop where
  snaps : s.snaps = books.length
  bids : s.bids = (books.getLast?.map Decoder.UiBook.bids).getD []
  asks : s.asks = (books.getLast?.map Decoder.UiBook.asks).getD []
  bookSeq : s.bookSeq = (books.getLast?.map Decoder.UiBook.bookSeq).getD 0

theorem onTrade_displays {books : List Decoder.UiBook} (displays : Displays books s) (clock : Nat → Int) (row : TradeRow) :
    Displays books (s.onTrade clock row) := by
  rw [State.onTrade]
  by_cases fill : row.status = 0
  · rcases addToBar_keeps { s with trades := s.trades + 1, volume := s.volume + row.qty, lastPrice := some row.price }
      { time := clock s.trades, price := row.price, qty := row.qty } with ⟨-, -, -, -, -, bids, asks, bookSeq, snaps⟩
    rw [if_pos fill]
    exact ⟨snaps.trans displays.snaps, bids.trans displays.bids, asks.trans displays.asks, bookSeq.trans displays.bookSeq⟩
  · rw [if_neg fill]
    exact ⟨displays.snaps, displays.bids, displays.asks, displays.bookSeq⟩

theorem onTrades_spec {books : List Decoder.UiBook} (reflects : Reflects clock past s) (displays : Displays books s)
    (later : List TradeRow) : Reflects clock (past ++ later) (later.foldl (State.onTrade clock) s) ∧
      Displays books (later.foldl (State.onTrade clock) s) := by
  induction later generalizing past s with
  | nil =>
    rw [List.append_nil]
    exact ⟨reflects, displays⟩
  | cons row rest ih =>
    rw [List.foldl_cons, ← List.singleton_append, ← List.append_assoc]
    exact ih (onTrade_reflects reflects row) (onTrade_displays displays clock row)

theorem onSnapshot_spec (bookDepth : Nat) {books : List Decoder.UiBook} (reflects : Reflects clock past s) (displays : Displays books s)
    (data : List UInt8) : Reflects clock past (s.onSnapshot bookDepth data) ∧
      Displays (books ++ (Decoder.onSnapshot bookDepth data).toList) (s.onSnapshot bookDepth data) := by
  rw [State.onSnapshot]
  cases Decoder.onSnapshot bookDepth data with
  | none =>
    rw [Option.toList_none, List.append_nil]
    exact ⟨reflects, displays⟩
  | some book =>
    rw [Option.toList_some]
    refine ⟨⟨reflects.trades, reflects.rejects, reflects.volume, reflects.lastPrice, reflects.tape, reflects.candles, reflects.curBar⟩,
      ?_, ?_, ?_, ?_⟩
    · rw [List.length_append, ← displays.snaps]
      rfl
    · rw [List.getLast?_concat]
      rfl
    · rw [List.getLast?_concat]
      rfl
    · rw [List.getLast?_concat]
      rfl

theorem start_reflects (clock : Nat → Int) : Reflects clock [] {} := by
  have none : bars clock [] = [] := rfl
  refine ⟨rfl, rfl, rfl, rfl, ?_, ?_, ?_⟩
  · rw [List.reverse_nil, List.take_nil, List.map_nil]
  · rw [none, latest, List.dropLast_nil, List.drop_nil]
  · rw [none, List.getLast?_nil]

theorem receive_spec (clock : Nat → Int) (bookDepth : Nat) {books : List Decoder.UiBook} (reflects : Reflects clock past s)
    (displays : Displays books s) (arrived : List Datagram) :
    Reflects clock (past ++ arrived.flatMap Datagram.rows) (arrived.foldl (State.receive clock bookDepth) s) ∧
      Displays (books ++ arrived.filterMap (Datagram.book bookDepth)) (arrived.foldl (State.receive clock bookDepth) s) := by
  induction arrived generalizing past books s with
  | nil =>
    rw [List.flatMap_nil, List.filterMap_nil, List.append_nil, List.append_nil]
    exact ⟨reflects, displays⟩
  | cons datagram rest ih =>
    rw [List.flatMap_cons, List.foldl_cons, ← List.append_assoc]
    cases datagram with
    | trades data =>
      rcases onTrades_spec reflects displays (rows data) with ⟨reflects', displays'⟩
      exact ih reflects' displays'
    | snapshot data =>
      rcases onSnapshot_spec bookDepth reflects displays data with ⟨reflects', displays'⟩
      have shown : (Datagram.snapshot data :: rest).filterMap (Datagram.book bookDepth) =
          (Decoder.onSnapshot bookDepth data).toList ++ rest.filterMap (Datagram.book bookDepth) := by
        rw [List.filterMap_cons, Datagram.book]
        cases Decoder.onSnapshot bookDepth data <;> rfl
      rw [shown, Datagram.rows, List.append_nil, ← List.append_assoc]
      exact ih reflects' displays'

theorem start_displays : Displays [] {} := ⟨rfl, rfl, rfl, rfl⟩

/-- Whatever bytes arrive on the two channels, in whatever order: the state is that of the records and
    the snapshots in them, however they were cut into datagrams. -/
theorem state_reflects_feed (clock : Nat → Int) (bookDepth : Nat) (arrived : List Datagram) :
    Reflects clock (arrived.flatMap Datagram.rows) (arrived.foldl (State.receive clock bookDepth) {}) ∧
      Displays (arrived.filterMap (Datagram.book bookDepth)) (arrived.foldl (State.receive clock bookDepth) {}) :=
  receive_spec clock bookDepth (start_reflects clock) start_displays arrived

end Ui

end Titan
