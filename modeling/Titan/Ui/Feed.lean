import Mathlib.Algebra.Order.BigOperators.Group.List
import Mathlib.Algebra.Order.Ring.Nat
import Titan.Pipeline.ServerRuns
import Titan.Ui.State

namespace Titan

open LittleEndian Server Transition
open UdpPublisher (payload)

def TradeEvent.row (event : TradeEvent) : Ui.TradeRow where
  price := event.price.toInt
  seq := event.feedSeq.toNat
  qty := event.quantity.toNat
  side := event.takerSide.toNat
  status := event.status.toNat

namespace Ui

variable {datagram : List TradeEvent} {event : TradeEvent} {i : Nat}

theorem unpackTrade_payload (held : datagram[i]? = some event) : unpackTrade (payload datagram) (i * TRADE_SZ) = event.row := by
  rcases List.getElem?_eq_some_iff.mp held with ⟨low, value⟩
  have tail : (payload datagram).drop (i * TRADE_SZ) = pack event.fields ++ payload (datagram.drop (i + 1)) := by
    rw [payload, Nat.mul_comm, TRADE_SZ, drop_flatMap TradeEvent.bytes_length, List.drop_eq_getElem_cons low, value,
      List.flatMap_cons]
    rfl
  have members := unpack_pack event.fields_fit (payload (datagram.drop (i + 1)))
  rw [unpackTrade, tail, show TRADE_FMT = event.fields.map Prod.fst from rfl, members]
  simp only [TradeEvent.fields, List.map_cons, List.map_nil, signed_toUInt64]
  rfl

theorem rows_payload (datagram : List TradeEvent) : rows (payload datagram) = datagram.map TradeEvent.row := by
  have count : (payload datagram).length / TRADE_SZ = datagram.length := by
    rw [UdpPublisher.payload_length, TRADE_SZ, Nat.mul_div_cancel_left _ (by decide)]
  apply List.ext_getElem?
  intro i
  rw [rows, count, List.getElem?_map, List.getElem?_map]
  by_cases low : i < datagram.length
  · have held : datagram[i]? = some datagram[i] := List.getElem?_eq_getElem low
    rw [List.getElem?_range low, Option.map_some, unpackTrade_payload held, held, Option.map_some]
  · rw [List.getElem?_eq_none (by simp; omega), List.getElem?_eq_none (by omega)]
    rfl

theorem rows_payloads (datagrams : List (List TradeEvent)) :
    (datagrams.map payload).flatMap rows = datagrams.flatten.map TradeEvent.row := by
  induction datagrams with
  | nil => rfl
  | cons datagram rest ih => rw [List.map_cons, List.flatMap_cons, rows_payload, ih, List.flatten_cons, List.map_append]

theorem seen_of_sublist {datagrams : List (List TradeEvent)} {arrived : List (List UInt8)}
    (lossy : arrived.Sublist (datagrams.map payload)) :
    ∃ seen : List TradeEvent, seen.Sublist datagrams.flatten ∧ arrived.flatMap rows = seen.map TradeEvent.row ∧
      arrived.flatten.length = 40 * seen.length := by
  rcases List.sublist_map_iff.mp lossy with ⟨kept, sublist, rfl⟩
  refine ⟨kept.flatten, sublist.flatten, rows_payloads kept, ?_⟩
  clear lossy sublist
  induction kept with
  | nil => rfl
  | cons datagram rest ih =>
    rw [List.map_cons, List.flatten_cons, List.length_append, UdpPublisher.payload_length, ih, List.flatten_cons, List.length_append,
      Nat.mul_add]

theorem row_status (event : TradeEvent) : decide (event.row.status = 0) = decide (event.status = TRADE_STATUS_FILL) := by
  apply decide_eq_decide.mpr
  exact UInt8.toNat_inj (b := 0)

theorem fills_volume (events : List TradeEvent) :
    (((events.map TradeEvent.row).filter fun row => decide (row.status = 0)).map TradeRow.qty).sum = fillTotal events := by
  rw [List.filter_map, List.map_map, fillTotal]
  congr 2
  apply List.filter_congr
  intro event _
  exact row_status event

theorem fillTotal_sublist {seen events : List TradeEvent} (sublist : seen.Sublist events) : fillTotal seen ≤ fillTotal events :=
  List.Sublist.sum_le_sum ((sublist.filter _).map _) fun _ _ => Nat.zero_le _

def shown (clock : Nat → Int) (arrived : List (List UInt8)) : State := arrived.foldl (State.onTrades clock) {}

theorem shown_reflects (clock : Nat → Int) (arrived : List (List UInt8)) : Reflects clock (arrived.flatMap rows) (shown clock arrived) := by
  have spec := (receive_spec clock 0 (start_reflects clock) start_displays (arrived.map Datagram.trades)).1
  rw [List.foldl_map, List.flatMap_map] at spec
  exact spec

variable {n : Nat} {cfg : ServerConfig} {s : Server n} {replies rest : List Sendto} {u : UdpPublisher} {arrived : List (List UInt8)}

/-- From the log to the screen: when the server has come down, the events are those of its log, and what
    arrives of the datagrams that `sendto` took is shown as it is. It falls short of the engine's volume
    by what was lost, and if as much arrived as was emitted, it is the whole feed. -/
theorem ui_shows_engine (reach : Reachable (step cfg) (create n cfg) s) (exited : s.Exited)
    (sent : UdpPublisher.transmitAll {} s.batches replies = some (u, rest)) (lossy : arrived.Sublist u.wire) (clock : Nat → Int) :
    Matcher.submitAll s.wal (OrderBook.create cfg.maxNodes cfg.idCapacity cfg.levelCapacity) = some (s.book, s.emitted) ∧
      ∃ seen : List TradeEvent, seen.Sublist s.emitted ∧ Reflects clock (seen.map TradeEvent.row) (shown clock arrived) ∧
        (shown clock arrived).volume = fillTotal seen ∧ fillTotal seen ≤ fillTotal s.emitted ∧
        (arrived.flatten.length = 40 * s.emitted.length → seen = s.emitted) := by
  have inv := reachable_inv reach
  rcases exited with ⟨-, sequencer, matcher, publisher⟩
  rcases inv.submitted_exited matcher with ⟨given, emitted⟩
  have log := (inv.wal_exited sequencer).2
  refine ⟨?_, ?_⟩
  · rw [← log, ← given]
    exact inv.run
  · rcases (UdpPublisher.transmitAll_spec s.batches replies {}).1 u rest sent with ⟨-, taken, length, rfl⟩
    have accounted := UdpPublisher.accounted_of_settled length
    rcases accounted.wire with ⟨kept, sublist, wire, -⟩
    rw [wire] at lossy
    rcases seen_of_sublist (lossy.trans (sublist.map payload)) with ⟨seen, part, read, bytes⟩
    rw [UdpPublisher.datagrams_flatten, inv.batches_exited publisher, emitted] at part
    have reflects := shown_reflects clock arrived
    rw [read] at reflects
    refine ⟨seen, part, reflects, ?_, fillTotal_sublist part, ?_⟩
    · rw [reflects.volume, fills_volume]
    · intro whole
      rw [bytes] at whole
      exact part.eq_of_length (by omega)

theorem ui_shows_engine_one : ∃ (s : Server 2) (u : UdpPublisher) (rest : List Sendto),
    Reachable (step smallConfig) (create 2 smallConfig) s ∧ s.Exited ∧ s.emitted.length = 1 ∧
      UdpPublisher.transmitAll {} s.batches [.interrupted, .took 40] = some (u, rest) ∧
      ∃ seen : List TradeEvent, seen.Sublist s.emitted ∧ Reflects (fun _ => 0) (seen.map TradeEvent.row) (shown (fun _ => 0) u.wire) ∧
        (u.wire.flatten.length = 40 * s.emitted.length → seen = s.emitted) := by
  have ran : (Transition.run (step smallConfig) overtaken (create 2 smallConfig)).map (fun s =>
      decide (s.Exited ∧ s.emitted.length = 1 ∧
        (UdpPublisher.transmitAll {} s.batches [.interrupted, .took 40]).isSome = true)) = some true := by
    decide +kernel
  rcases Option.map_eq_some_iff.mp ran with ⟨s, taken, facts⟩
  rcases of_decide_eq_true facts with ⟨exited, one, returned⟩
  rcases Option.isSome_iff_exists.mp returned with ⟨⟨u, rest⟩, sent⟩
  have reach : Reachable (step smallConfig) (create 2 smallConfig) s := Reachable.start.run taken
  rcases (ui_shows_engine reach exited sent (List.Sublist.refl _) fun _ => 0).2 with ⟨seen, part, reflects, -, -, whole⟩
  exact ⟨s, u, rest, reach, exited, one, sent, seen, part, reflects, whole⟩

end Ui

end Titan
