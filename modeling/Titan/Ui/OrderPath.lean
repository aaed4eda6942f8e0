import Titan.Data.Interleaving
import Titan.Pipeline.ServerRuns
import Titan.Ui.ManualOrders

namespace Titan

open Framing Interleaving Transition
open Sequencer (stampFrom stampFrom_length)

namespace Server

variable {n : Nat} {cfg : ServerConfig} {s : Server n}

theorem Inv.claimed_pushed (inv : Inv cfg s) (i : Fin n) : of i s.mpsc.claimed <+: s.pushed i := by
  have pushing := inv.pushing i
  rw [of, inv.mpsc.pushed i]
  cases gateway : s.gateways i with
  | pushing o =>
    rw [gateway] at pushing
    rcases pushing with ⟨pushed, call⟩
    rw [pushed]
    apply (List.prefix_append_right_inj _).mpr
    cases producer : s.mpsc.producers i with
    | idle | load item | check item pos | claim item pos => exact List.nil_prefix
    | write item pos | publish item pos =>
      rw [producer] at call
      rw [← call item rfl]
      exact List.prefix_rfl
  | running | stopped =>
    rw [gateway] at pushing
    rw [pushing.1, pushing.2]
    have none : s.mpsc.calls i ++ (MpscRing.Producer.idle : MpscRing.Producer Order).inFlight = s.mpsc.calls i :=
      List.append_nil _
    exact ⟨[], (List.append_nil _).trans none⟩

theorem Sequencing.logged_taken {mpsc : MpscRing (Fin n) Order} {ingress : SpscRing Order} {seq : Sequencer} {stopped : Bool}
    {pc : SequencerPc} (sequencing : Sequencing cfg mpsc ingress seq stopped pc) :
    ∃ orders, Logged cfg seq (stampFrom 0 orders) ∧ orders <+: mpsc.taken := by
  cases pc with
  | check | drain => exact ⟨_, sequencing.2.logged, List.prefix_rfl⟩
  | loadEnqueue => exact ⟨_, sequencing.2.2.logged, List.prefix_rfl⟩
  | loadDequeue e | flush | done | exited => exact ⟨_, sequencing.2.2.2.logged, List.prefix_rfl⟩
  | journal o =>
    rcases sequencing with ⟨-, before, taken, handed⟩
    exact ⟨before, handed.logged, [o], taken.symm⟩
  | push o => exact ⟨_, sequencing.2.1, List.prefix_rfl⟩

/-- The log is what was claimed on the ring, in the order of the claims, as far as it has come. -/
theorem Inv.wal_claimed (inv : Inv cfg s) : ∃ front, front <+: s.mpsc.claimed ∧ s.wal = stampFrom 0 (front.map Prod.snd) := by
  rcases inv.sequencing.logged_taken with ⟨orders, logged, part⟩
  have positive : 0 < cfg.mpscSize := Nat.lt_of_lt_of_le (by decide) cfg.mpscWide
  have taken := inv.mpsc.taken_eq positive
  rw [taken] at part
  have same := List.prefix_iff_eq_take.mp part
  rw [← List.map_take] at same
  refine ⟨(s.mpsc.claimed.take s.mpsc.taken.length).take orders.length, ?_, ?_⟩
  · exact (List.take_prefix ..).trans (List.take_prefix ..)
  · rw [← same]
    exact logged.wal_eq

theorem Inv.claimed_of_wal (inv : Inv cfg s) {front : List (Fin n × Order)} (front_of : front <+: s.mpsc.claimed)
    (wal : s.wal = stampFrom 0 (front.map Prod.snd)) (exited : s.sequencer = .exited) : front = s.mpsc.claimed := by
  apply front_of.eq_of_length
  have whole := (inv.wal_exited exited).1
  rw [wal] at whole
  have lengths := congrArg List.length whole
  rwa [stampFrom_length, stampFrom_length, MpscRing.items, List.length_map, List.length_map] at lengths

end Server

namespace TcpGateway

variable {s : TcpGateway}

def stream (s : TcpGateway) : List (Nat × Order) := s.pushes.map fun push => (push.1, Order.ofBytes push.2)

theorem Framed.stream_orders (framed : s.Framed) : s.stream.map Prod.snd = s.inbound.map Order.ofBytes := by
  rw [framed.published, stream, List.map_map, List.map_map]
  rfl

theorem Framed.of_stream (framed : s.Framed) (k : Nat) :
    of k s.stream = (blocks ORDER_BYTES (s.received k)).map Order.ofBytes := by
  rw [← framed.orders k, stream, of_map, of, ordersOf]
  rfl

end TcpGateway

namespace Server

variable {n : Nat} {cfg : ServerConfig} {s : Server n}

/-- From the wire to the log, in every state of the pipeline: each connection of each gateway has the
    first of the orders in its bytes in the log, whole, in their order and with nothing but the number
    changed, and once everything has come down it has them all. The same holds for the orders that were
    placed by hand on the connection that the bytes come from. -/
theorem wire_to_log (reach : Reachable (step cfg) (create n cfg) s) (gateways : Fin n → TcpGateway)
    (running : ∀ i, Reachable TcpGateway.step TcpGateway.create (gateways i))
    (pushes : ∀ i, s.pushed i <+: (gateways i).inbound.map Order.ofBytes) :
    ∃ tagged : List (Fin n × Nat × Order), s.wal = stampFrom 0 (tagged.map fun t => t.2.2) ∧
      (∀ i k, of k (of i tagged) <+: (blocks ORDER_BYTES ((gateways i).received k)).map Order.ofBytes) ∧
      (∀ i, s.Exited → s.pushed i = (gateways i).inbound.map Order.ofBytes →
        ∀ k, of k (of i tagged) = (blocks ORDER_BYTES ((gateways i).received k)).map Order.ofBytes) ∧
      ∀ calls i j k, (gateways i).received k <+: (Ui.serve {} calls).written j → of k (of i tagged) <+: (Ui.serve {} calls).placed j := by
  have inv := reachable_inv reach
  have framed (i : Fin n) : (gateways i).Framed := (running i).invariant TcpGateway.create_framed fun _ _ _ _ before taken =>
    (TcpGateway.step_framed before taken).1
  rcases inv.wal_claimed with ⟨front, front_of, wal⟩
  have fits (i : Fin n) : of i front <+: ((gateways i).stream).map Prod.snd := by
    rw [(framed i).stream_orders]
    exact (of_front front_of i).trans ((inv.claimed_pushed i).trans (pushes i))
  rcases exists_labelled fits with ⟨tagged, whole, parts⟩
  have arrived (i : Fin n) (k : Nat) : of k (of i tagged) <+: (blocks ORDER_BYTES ((gateways i).received k)).map Order.ofBytes := by
    rw [← (framed i).of_stream k]
    exact of_front (parts i) k
  refine ⟨tagged, ?_, arrived, ?_, ?_⟩
  · rw [wal, ← whole, List.map_map]
    rfl
  · intro i exited all k
    rcases exited with ⟨stopped, sequencer, -⟩
    have same : (of i tagged).length = ((gateways i).stream).length := by
      have count : (of i front).length = (s.pushed i).length := by
        rw [inv.claimed_of_wal front_of wal sequencer, of, inv.claimed_stopped i (stopped i)]
      rw [← whole, of_map i Prod.snd tagged, List.length_map, all, ← (framed i).stream_orders, List.length_map] at count
      exact count
    rw [(parts i).eq_of_length same, (framed i).of_stream k]
  · intro calls i j k part
    rw [(Ui.serve_sound Ui.start_sound calls).written j] at part
    have first := arrived i k
    rw [Ui.blocks_of_front part] at first
    exact first.trans (List.take_prefix ..)

/-- Each of two gateways gets its order in two pieces, and the second is overtaken by the first. -/
theorem wire_to_log_overtaken : ∃ s : Server 2, Reachable (step smallConfig) (create 2 smallConfig) s ∧ s.Exited ∧
    ∃ tagged : List (Fin 2 × Nat × Order), s.wal = stampFrom 0 (tagged.map fun t => t.2.2) ∧
      of 0 (of 0 tagged) = [soldOrder] ∧ of 0 (of 1 tagged) = [boughtOrder] := by
  have ran : (Transition.run (step smallConfig) overtaken (create 2 smallConfig)).map (fun s =>
      decide (s.Exited ∧ ∀ i, s.pushed i = [if i = 0 then soldOrder else boughtOrder])) = some true := by
    decide +kernel
  rcases Option.map_eq_some_iff.mp ran with ⟨s, path, facts⟩
  rcases of_decide_eq_true facts with ⟨exited, pushed⟩
  have came (i : Fin 2) : ∃ g, Reachable TcpGateway.step TcpGateway.create g ∧ g.inbound.map Order.ofBytes = s.pushed i ∧
      (blocks ORDER_BYTES (g.received 0)).map Order.ofBytes = s.pushed i := by
    rw [pushed]
    generalize same : (if i = 0 then soldOrder else boughtOrder) = o
    have heard : (Transition.run TcpGateway.step [.listening [.connected 5 true, .wouldBlock],
        .ready 5 false [.bytes (o.bytes.take 25), .interrupted, .bytes (o.bytes.drop 25), .wouldBlock]] TcpGateway.create).map
        (fun g => decide (g.inbound.map Order.ofBytes = [o] ∧
          (blocks ORDER_BYTES (g.received 0)).map Order.ofBytes = [o])) = some true := by
      subst same
      clear pushed
      revert i
      decide +kernel
    rcases Option.map_eq_some_iff.mp heard with ⟨g, taken, facts⟩
    exact ⟨g, Reachable.start.run taken, of_decide_eq_true facts⟩
  choose gateways running inbound received using came
  have reach : Reachable (step smallConfig) (create 2 smallConfig) s := Reachable.start.run path
  rcases wire_to_log reach gateways running (fun i => inbound i ▸ List.prefix_rfl) with ⟨tagged, wal, -, all, -⟩
  have each (i : Fin 2) : of 0 (of i tagged) = [if i = 0 then soldOrder else boughtOrder] := by
    rw [all i exited (inbound i).symm 0, received i, pushed i]
  exact ⟨s, reach, exited, tagged, wal, each 0, each 1⟩

end Server

end Titan
