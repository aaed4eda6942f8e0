import Titan.Net.SnapshotSender
import Titan.Pipeline.MatcherLoop
import Titan.Ui.Feed

namespace Titan

open Decoder

namespace Listener

structure TradeTally where
  datagrams : Nat := 0
  records : Nat := 0
  bytes : Nat := 0
  malformed : Nat := 0
  deriving DecidableEq

/-- `run_trades` over the datagrams that `recvfrom` returns before it times out; `expect` is 0 where
    `--expect` is not given. -/
def runTrades (expect : Nat) : List (List UInt8) → TradeTally → TradeTally
  | [], t => t
  | data :: rest, t =>
    let t := { t with datagrams := t.datagrams + 1, bytes := t.bytes + data.length }
    if data.length = 0 ∨ data.length % Ui.TRADE_SZ ≠ 0 then runTrades expect rest { t with malformed := t.malformed + 1 }
    else
      let t := { t with records := t.records + data.length / Ui.TRADE_SZ }
      if expect ≠ 0 ∧ t.records ≥ expect then t else runTrades expect rest t

def TradeTally.ok (expect : Nat) (t : TradeTally) : Bool :=
  decide (t.records > 0 ∧ t.malformed = 0 ∧ (expect = 0 ∨ t.records ≥ expect))

structure SnapshotTally where
  snaps : Nat := 0
  valid : Nat := 0
  bad : Nat := 0
  seqs : List Nat := []
  deriving DecidableEq

def SEQS_MAX : Nat := 1000000

def runSnapshots (expect : Nat) : List (List UInt8) → SnapshotTally → SnapshotTally
  | [], t => t
  | data :: rest, t =>
    let t := { t with snaps := t.snaps + 1 }
    match runSnapshot data with
    | none => runSnapshots expect rest { t with bad := t.bad + 1 }
    | some sample =>
      let t := { t with
        valid := t.valid + 1
        seqs := if t.seqs.length < SEQS_MAX then t.seqs ++ [sample.feedSeq] else t.seqs }
      if expect ≠ 0 ∧ t.valid ≥ expect then t else runSnapshots expect rest t

def monotonic (seqs : List Nat) : Bool := (List.range (seqs.length - 1)).all fun i => decide (seqs.getD i 0 ≤ seqs.getD (i + 1) 0)

def SnapshotTally.ok (expect : Nat) (t : SnapshotTally) : Bool :=
  decide (t.valid > 0 ∧ t.bad = 0 ∧ monotonic t.seqs = true ∧ (expect = 0 ∨ t.valid ≥ expect))

variable {heard : List (List UInt8)}

theorem runTrades_spec (expect : Nat) (whole : ∀ data ∈ heard, ∃ k, data.length = Ui.TRADE_SZ * (k + 1)) (t : TradeTally) :
    ∃ used rest, heard = used ++ rest ∧
      runTrades expect heard t =
        { datagrams := t.datagrams + used.length, records := t.records + used.flatten.length / Ui.TRADE_SZ,
          bytes := t.bytes + used.flatten.length, malformed := t.malformed } ∧
      (rest ≠ [] → expect ≠ 0 ∧ expect ≤ t.records + used.flatten.length / Ui.TRADE_SZ) := by
  induction heard generalizing t with
  | nil => exact ⟨[], [], rfl, rfl, fun some => (some rfl).elim⟩
  | cons data later ih =>
    rcases whole data List.mem_cons_self with ⟨k, size⟩
    have formed : ¬(data.length = 0 ∨ data.length % Ui.TRADE_SZ ≠ 0) := by
      rw [size, Ui.TRADE_SZ]
      omega
    have count : data.length / Ui.TRADE_SZ = k + 1 := by
      rw [size, Ui.TRADE_SZ]
      omega
    rw [runTrades]
    simp only [if_neg formed]
    by_cases enough : expect ≠ 0 ∧ t.records + data.length / Ui.TRADE_SZ ≥ expect
    · rw [if_pos enough]
      refine ⟨[data], later, rfl, ?_, fun _ => ?_⟩
      · simp
      · simpa using enough
    · rw [if_neg enough]
      rcases ih (fun other member => whole other (List.mem_cons_of_mem _ member))
        { t with datagrams := t.datagrams + 1, records := t.records + data.length / Ui.TRADE_SZ, bytes := t.bytes + data.length }
        with ⟨used, rest, split, tally, stopped⟩
      have records : t.records + data.length / Ui.TRADE_SZ + used.flatten.length / Ui.TRADE_SZ =
          t.records + (data :: used).flatten.length / Ui.TRADE_SZ := by
        rw [List.flatten_cons, List.length_append, size, Ui.TRADE_SZ]
        omega
      refine ⟨data :: used, rest, by rw [split]; rfl, ?_, ?_⟩
      · rw [tally, ← records, List.flatten_cons, List.length_append, List.length_cons, Nat.add_assoc t.datagrams,
          Nat.add_assoc t.bytes, Nat.add_comm 1]
      · rw [← records]
        exact stopped

def seqOf (data : List UInt8) : Nat := ((runSnapshot data).map Sample.feedSeq).getD 0

theorem runSnapshots_spec (expect : Nat) (decodes : ∀ data ∈ heard, (runSnapshot data).isSome = true) (t : SnapshotTally) :
    ∃ used rest, heard = used ++ rest ∧ (runSnapshots expect heard t).snaps = t.snaps + used.length ∧
      (runSnapshots expect heard t).valid = t.valid + used.length ∧ (runSnapshots expect heard t).bad = t.bad ∧
      (∃ listed, listed.Sublist (used.map seqOf) ∧ (runSnapshots expect heard t).seqs = t.seqs ++ listed) ∧
      (rest ≠ [] → expect ≠ 0 ∧ expect ≤ t.valid + used.length) := by
  induction heard generalizing t with
  | nil => exact ⟨[], [], rfl, rfl, rfl, rfl, ⟨[], List.Sublist.refl _, (List.append_nil _).symm⟩, fun some => (some rfl).elim⟩
  | cons data later ih =>
    rcases Option.isSome_iff_exists.mp (decodes data List.mem_cons_self) with ⟨sample, decoded⟩
    have seq : sample.feedSeq = seqOf data := by
      rw [seqOf, decoded]
      rfl
    have first : ∃ listed, listed.Sublist [seqOf data] ∧
        (if t.seqs.length < SEQS_MAX then t.seqs ++ [sample.feedSeq] else t.seqs) = t.seqs ++ listed := by
      rw [seq]
      split
      · exact ⟨[seqOf data], List.Sublist.refl _, rfl⟩
      · exact ⟨[], List.nil_sublist _, (List.append_nil _).symm⟩
    rcases first with ⟨listed, sublist, seqs⟩
    rw [runSnapshots, decoded]
    simp only [seqs]
    by_cases enough : expect ≠ 0 ∧ t.valid + 1 ≥ expect
    · rw [if_pos enough]
      exact ⟨[data], later, rfl, rfl, rfl, rfl, ⟨listed, sublist, rfl⟩, fun _ => enough⟩
    · rw [if_neg enough]
      rcases ih (fun other member => decodes other (List.mem_cons_of_mem _ member))
        { t with snaps := t.snaps + 1, valid := t.valid + 1, seqs := t.seqs ++ listed } with
        ⟨used, rest, split, snaps, valid, bad, ⟨listed', sublist', seqs'⟩, stopped⟩
      refine ⟨data :: used, rest, by rw [split]; rfl, ?_, ?_, bad, ⟨listed ++ listed', ?_, ?_⟩, ?_⟩
      · rw [snaps, List.length_cons, Nat.add_assoc, Nat.add_comm 1]
      · rw [valid, List.length_cons, Nat.add_assoc, Nat.add_comm 1]
      · exact sublist.append sublist'
      · rw [seqs', List.append_assoc]
      · intro some
        have late := stopped some
        rw [Nat.add_assoc, Nat.add_comm 1] at late
        exact late

theorem monotonic_of_sorted {seqs : List Nat} (sorted : seqs.Pairwise (· ≤ ·)) : monotonic seqs = true := by
  rw [monotonic, List.all_eq_true]
  intro i member
  rw [List.mem_range] at member
  have low : i < seqs.length := by omega
  have next : i + 1 < seqs.length := by omega
  rw [decide_eq_true_eq, List.getD_eq_getElem?_getD, List.getD_eq_getElem?_getD, List.getElem?_eq_getElem low,
    List.getElem?_eq_getElem next]
  exact List.pairwise_iff_getElem.mp sorted i (i + 1) low next (Nat.lt_succ_self i)

theorem runSnapshots_accepts (expect : Nat) (decodes : ∀ data ∈ heard, (runSnapshot data).isSome = true)
    (sorted : (heard.map seqOf).Pairwise (· ≤ ·)) :
    (runSnapshots expect heard {}).bad = 0 ∧ monotonic (runSnapshots expect heard {}).seqs = true ∧
      ((runSnapshots expect heard {}).ok expect = true ↔ heard ≠ [] ∧ (expect = 0 ∨ expect ≤ heard.length)) := by
  rcases runSnapshots_spec expect decodes {} with ⟨used, rest, rfl, -, valid, bad, ⟨listed, sublist, seqs⟩, stopped⟩
  have counted : monotonic (runSnapshots expect (used ++ rest) {}).seqs = true := by
    rw [seqs]
    apply monotonic_of_sorted
    rw [List.map_append] at sorted
    exact sorted.sublist (sublist.trans (List.sublist_append_left _ _))
  refine ⟨bad, counted, ?_⟩
  have stopped' : 0 < rest.length → expect ≠ 0 ∧ expect ≤ 0 + used.length := fun some => stopped (List.length_pos_iff.mp some)
  have some : used ++ rest ≠ [] ↔ 0 < used.length + rest.length := by
    rw [← List.length_append]
    exact List.length_pos_iff.symm
  rw [SnapshotTally.ok, decide_eq_true_eq, counted, valid, bad, some, List.length_append]
  show 0 + used.length > 0 ∧ 0 = 0 ∧ true = true ∧ (expect = 0 ∨ 0 + used.length ≥ expect) ↔ _
  simp only [true_and]
  omega

theorem records_of_whole {datagrams : List (List UInt8)} (whole : ∀ data ∈ datagrams, ∃ k, data.length = Ui.TRADE_SZ * (k + 1)) :
    ∃ n, datagrams.flatten.length = Ui.TRADE_SZ * n ∧ datagrams.length ≤ n := by
  induction datagrams with
  | nil => exact ⟨0, rfl, Nat.le_refl 0⟩
  | cons data rest ih =>
    rcases whole data List.mem_cons_self with ⟨k, size⟩
    rcases ih fun other member => whole other (List.mem_cons_of_mem _ member) with ⟨n, total, low⟩
    refine ⟨k + 1 + n, ?_, ?_⟩
    · rw [List.flatten_cons, List.length_append, size, total, Nat.mul_add Ui.TRADE_SZ (k + 1)]
    · rw [List.length_cons]
      omega

/-- Whatever is lost of what the publisher put on the wire, the verifier of the trades finds nothing
    malformed, and it succeeds if there is anything left and as much as it expects. -/
theorem trade_verifier_accepts (batches : List (List TradeEvent)) (replies : List Sendto) (u : UdpPublisher) (left : List Sendto)
    (published : UdpPublisher.transmitAll {} batches replies = some (u, left)) (heard : List (List UInt8))
    (lossy : heard.Sublist u.wire) (expect : Nat) :
    (runTrades expect heard {}).malformed = 0 ∧
      (runTrades expect heard {}).bytes = Ui.TRADE_SZ * (runTrades expect heard {}).records ∧
      (runTrades expect heard {}).records ≤ batches.flatten.length ∧
      ((runTrades expect heard {}).ok expect = true ↔ heard ≠ [] ∧ (expect = 0 ∨ expect ≤ heard.flatten.length / Ui.TRADE_SZ)) := by
  rcases ((UdpPublisher.transmitAll_spec batches replies {}).1 u left published).2 with ⟨taken, length, rfl⟩
  rcases (UdpPublisher.accounted_of_settled length).wire with ⟨kept, sublist, wire, -, -⟩
  rw [wire] at lossy
  have whole : ∀ data ∈ heard, ∃ k, data.length = Ui.TRADE_SZ * (k + 1) := by
    intro data member
    rcases List.mem_map.mp (lossy.subset member) with ⟨datagram, inside, rfl⟩
    have some := UdpPublisher.datagrams_some batches datagram (sublist.subset inside)
    rcases List.exists_cons_of_ne_nil some with ⟨event, more, rfl⟩
    exact ⟨more.length, UdpPublisher.payload_length _⟩
  rcases Ui.seen_of_sublist (lossy.trans (sublist.map _)) with ⟨seen, part, -, total⟩
  have few := part.length_le
  rw [UdpPublisher.datagrams_flatten] at few
  rcases runTrades_spec expect whole {} with ⟨used, rest, split, tally, stopped⟩
  have front : ∀ data ∈ used, ∃ k, data.length = Ui.TRADE_SZ * (k + 1) := by
    intro data member
    apply whole
    rw [split]
    exact List.mem_append_left _ member
  rcases records_of_whole front with ⟨n, bytes, low⟩
  rw [Ui.TRADE_SZ] at bytes
  have parts : heard.flatten.length = used.flatten.length + rest.flatten.length := by
    rw [split, List.flatten_append, List.length_append]
  have count : 0 + used.flatten.length / Ui.TRADE_SZ = n := by
    rw [bytes, Ui.TRADE_SZ]
    omega
  rw [count] at tally stopped
  rw [tally]
  refine ⟨rfl, ?_, ?_, ?_⟩
  · show 0 + used.flatten.length = 40 * n
    omega
  · show n ≤ batches.flatten.length
    omega
  · have heardSome : heard ≠ [] ↔ 0 < used.length + rest.length := by
      rw [← List.length_append, ← split]
      exact List.length_pos_iff.symm
    have usedNone : used.length = 0 → used.flatten.length = 0 := by
      intro none
      rw [List.eq_nil_of_length_eq_zero none]
      rfl
    have restNone : rest.length = 0 → rest.flatten.length = 0 := by
      intro none
      rw [List.eq_nil_of_length_eq_zero none]
      rfl
    have stopped' : 0 < rest.length → expect ≠ 0 ∧ expect ≤ n := fun some => stopped (List.length_pos_iff.mp some)
    rw [TradeTally.ok, decide_eq_true_eq, Ui.TRADE_SZ, heardSome, parts, bytes]
    show n > 0 ∧ 0 = 0 ∧ (expect = 0 ∨ n ≥ expect) ↔ _
    omega

/-- Two trades in a datagram that goes out after an interruption, and one in another that does not. -/
theorem trade_verifier_accepts_refused : ∃ u : UdpPublisher, u.dropped_ = 1 ∧ (runTrades 2 u.wire {}).ok 2 = true := by
  let fill : TradeEvent := { takerId := 2, makerId := 1, price := 100, feedSeq := 1, quantity := 4, takerSide := 0, status := 0 }
  have ran : (UdpPublisher.transmitAll {} [[fill, fill], [fill]] [.interrupted, .took 80, .failed]).map (fun r =>
      decide (r.1.dropped_ = 1 ∧ r.1.wire ≠ [] ∧ r.1.wire.flatten.length = 80)) = some true := by
    decide +kernel
  rcases Option.map_eq_some_iff.mp ran with ⟨⟨u, left⟩, published, facts⟩
  rcases of_decide_eq_true facts with ⟨dropped, some, bytes⟩
  have accepts := (trade_verifier_accepts _ _ u left published u.wire (List.Sublist.refl _) 2).2.2.2
  rw [bytes] at accepts
  exact ⟨u, dropped, accepts.mpr ⟨some, .inr (by decide)⟩⟩

end Listener

namespace MatcherLoop

variable {maxLevels : Nat} {every : UInt64} {slot : UInt64 → Option SnapshotBuffer} {m m' : MatcherLoop}

theorem serializeL2_seq {b : OrderBook} {buf buf' : SnapshotBuffer} {feedSeq : UInt64}
    (serialized : b.serializeL2 maxLevels buf feedSeq = some buf') : buf'.header.feedSeq = feedSeq := by
  simp only [OrderBook.serializeL2, Option.bind_eq_bind, Option.bind_eq_some_iff] at serialized
  rcases serialized with ⟨bids, -, asks, -, same⟩
  cases same
  rfl

theorem consume_sampled {o : Order} (call : m.consume maxLevels every slot o = some m') :
    ∃ taken : List Order, taken.Sublist [o] ∧
      m'.snapshots.map (fun buf => buf.header.feedSeq) = m.snapshots.map (fun buf => buf.header.feedSeq) ++ taken.map Order.seq := by
  simp only [consume, Option.bind_eq_bind, Option.bind_eq_some_iff] at call
  rcases call with ⟨⟨book, events, result⟩, -, went⟩
  have none : ∃ taken : List Order, taken.Sublist [o] ∧
      m.snapshots.map (fun buf => buf.header.feedSeq) = m.snapshots.map (fun buf => buf.header.feedSeq) ++ taken.map Order.seq :=
    ⟨[], List.nil_sublist _, (List.append_nil _).symm⟩
  split at went
  · split at went
    · cases went
      exact none
    · rcases Option.bind_eq_some_iff.mp went with ⟨buf, serialized, same⟩
      cases same
      refine ⟨[o], List.Sublist.refl _, ?_⟩
      rw [List.map_append, List.map_singleton, serializeL2_seq serialized]
      rfl
  · cases went
    exact none

theorem consumeAll_sampled {orders : List Order} (ran : consumeAll maxLevels every slot orders m = some m') :
    ∃ taken : List Order, taken.Sublist orders ∧
      m'.snapshots.map (fun buf => buf.header.feedSeq) = m.snapshots.map (fun buf => buf.header.feedSeq) ++ taken.map Order.seq := by
  induction orders generalizing m with
  | nil =>
    cases ran
    exact ⟨[], List.Sublist.refl _, (List.append_nil _).symm⟩
  | cons o rest ih =>
    simp only [consumeAll, Option.bind_eq_bind, Option.bind_eq_some_iff] at ran
    rcases ran with ⟨m₁, call, later⟩
    rcases ih later with ⟨taken, sublist, seqs⟩
    have step : ∃ first : List Order, first.Sublist [o] ∧
        m₁.snapshots.map (fun buf => buf.header.feedSeq) = m.snapshots.map (fun buf => buf.header.feedSeq) ++ first.map Order.seq :=
      consume_sampled call
    rcases step with ⟨first, head, seqs₁⟩
    refine ⟨first ++ taken, head.append sublist, ?_⟩
    rw [seqs, seqs₁, List.map_append, List.append_assoc]

theorem snapshots_sorted {orders : List Order} {maxNodes idCapacity levelCapacity : Nat}
    (increasing : orders.Pairwise fun o later => o.seq ≤ later.seq)
    (ran : consumeAll maxLevels every slot orders (create maxNodes idCapacity levelCapacity) = some m) (i j : Nat)
    (buf buf' : SnapshotBuffer) (less : i < j) (held : m.snapshots[i]? = some buf) (held' : m.snapshots[j]? = some buf') :
    buf.header.feedSeq.toNat ≤ buf'.header.feedSeq.toNat := by
  rcases consumeAll_sampled ran with ⟨taken, part, seqs⟩
  have sorted : (m.snapshots.map fun buf => buf.header.feedSeq).Pairwise (· ≤ ·) := by
    rw [seqs]
    show (taken.map Order.seq).Pairwise (· ≤ ·)
    rw [List.pairwise_map]
    exact increasing.sublist part
  rw [List.pairwise_map] at sorted
  rcases List.getElem?_eq_some_iff.mp held with ⟨low, rfl⟩
  rcases List.getElem?_eq_some_iff.mp held' with ⟨low', rfl⟩
  exact UInt64.le_iff_toNat_le.mp (List.pairwise_iff_getElem.mp sorted i j low low' less)

/-- Whatever orders the engine gets, in their order, and however its threads interleave: the verifier of
    the snapshots, over what is left of them, finds nothing bad and no number going back, and it succeeds
    if there is anything left and as much as it expects. -/
theorem snapshot_verifier_accepts {maxNodes : Nat} (small : maxNodes * PinNode.CAPACITY < 2 ^ 32)
    (idCapacity levelCapacity maxLevels : Nat) (fits : maxLevels < 2 ^ 33) (every : UInt64) (slot : UInt64 → Option SnapshotBuffer)
    (orders : List Order) (increasing : orders.Pairwise fun o later => o.seq ≤ later.seq) :
    ∃ m, consumeAll maxLevels every slot orders (create maxNodes idCapacity levelCapacity) = some m ∧
      ∀ (slots : Nat) (blank : Nat → UInt64) (s : SnapshotSender), 3 ≤ slots →
        Transition.Reachable (SnapshotSender.step slots) (SnapshotSender.create blank) s →
        (∀ g, 1 ≤ g → g ≤ s.pool.generation →
          ∃ buf, m.snapshots[g - 1]? = some buf ∧ SnapshotSender.Filled maxLevels (s.pool.image g) buf) →
        ∀ (heard : List (List UInt8)) (expect : Nat), heard.Sublist s.udp.wire →
          (Listener.runSnapshots expect heard {}).bad = 0 ∧
            Listener.monotonic (Listener.runSnapshots expect heard {}).seqs = true ∧
            ((Listener.runSnapshots expect heard {}).ok expect = true ↔ heard ≠ [] ∧ (expect = 0 ∨ expect ≤ heard.length)) := by
  have start := OrderBook.create_refines small idCapacity levelCapacity
  have fresh : Tracked (OrderBook.create maxNodes idCapacity levelCapacity) maxLevels 0 []
      (create maxNodes idCapacity levelCapacity) := by
    refine ⟨rfl, ?_⟩
    intro buf member
    cases member
  rcases consumeAll_spec fits every slot orders start fresh with ⟨m, looped, tracked⟩
  refine ⟨m, looped, ?_⟩
  intro slots blank s enough reach filled heard expect lossy
  have sound : SnapshotSender.Sound slots s :=
    reach.invariant (SnapshotSender.create_sound slots blank) fun _ _ _ _ before taken =>
      SnapshotSender.step_sound enough before taken
  have log := sound.log
  have image : ∀ g ∈ s.out, ∃ buf, m.snapshots[g - 1]? = some buf ∧
      SnapshotSender.datagramOf (s.pool.image g) = SnapshotBuffer.datagram maxLevels buf := by
    intro g member
    have bounded := log.bounded g member
    rcases filled g bounded.1 (Nat.le_trans bounded.2 sound.pool.recent) with ⟨buf, held, written⟩
    exact ⟨buf, held, written.datagram⟩
  have decoded : ∀ buf ∈ m.snapshots, (runSnapshot (SnapshotBuffer.datagram maxLevels buf)).isSome = true ∧
      Listener.seqOf (SnapshotBuffer.datagram maxLevels buf) = buf.header.feedSeq.toNat := by
    intro buf member
    rcases tracked.snapshots buf member with ⟨earlier, o, later, b, events, -, -, shown⟩
    rw [Listener.seqOf, shown.listener, shown.holding.header]
    exact ⟨rfl, rfl⟩
  have ordered := snapshots_sorted increasing looped
  rw [log.wire] at lossy
  rcases List.sublist_map_iff.mp lossy with ⟨kept, part, rfl⟩
  have decodes : ∀ data ∈ kept.map fun g => SnapshotSender.datagramOf (s.pool.image g), (runSnapshot data).isSome = true := by
    intro data member
    rcases List.mem_map.mp member with ⟨g, inside, rfl⟩
    rcases image g (part.subset inside) with ⟨buf, held, same⟩
    rw [same]
    exact (decoded buf (List.mem_of_getElem? held)).1
  have sorted : ((kept.map fun g => SnapshotSender.datagramOf (s.pool.image g)).map Listener.seqOf).Pairwise (· ≤ ·) := by
    rw [List.map_map, List.pairwise_map]
    apply (log.sorted.sublist part).imp_of_mem
    intro g g' member member' less
    rcases image g (part.subset member) with ⟨buf, held, same⟩
    rcases image g' (part.subset member') with ⟨buf', held', same'⟩
    rw [Function.comp_apply, Function.comp_apply, same, same', (decoded buf (List.mem_of_getElem? held)).2,
      (decoded buf' (List.mem_of_getElem? held')).2]
    have first := (log.bounded g (part.subset member)).1
    exact ordered (g - 1) (g' - 1) buf buf' (by omega) held held'
  exact Listener.runSnapshots_accepts expect decodes sorted

/-- The image of a book with one sell order, through the pool and over the wire. -/
theorem snapshot_verifier_accepts_offer : ∃ s : SnapshotSender, s.udp.wire.length = 1 ∧
    (Listener.runSnapshots 1 s.udp.wire {}).ok 1 = true := by
  let offer : Order := { id := 1, seq := 5, price := 100, quantity := 10, remaining := 10, side := 1, type := 0 }
  let words : List UInt64 := [SNAPSHOT_MAGIC, 4294967297, 5, 4294967296, 112, 0, 0, 0, 100, 10, 4294967297]
  have taken : (consumeAll 4 1 (fun _ => some blankBuffer) [offer] (create 2 4 4)).map
      (fun m => m.snapshots.map fun buf => (buf.header.levelCount, (List.range 11).map (SnapshotSender.wordsOf 4 buf))) =
      some [(1, words)] := by
    decide +kernel
  have ran : (Transition.run (SnapshotSender.step 3)
      ([.matcher .reserve, .matcher .examine] ++ (List.range 11).map (fun i => .matcher (.write i (words.getD i 0))) ++
        [.matcher .publish, .poll, .claim, .claim, .claim, .check, .size] ++ List.replicate 11 .copy ++ [.answer (.took 88)])
      (SnapshotSender.create fun _ => 0)).map (fun s => decide (s.pool.generation = 1 ∧ (List.range 11).map (s.pool.image 1) = words ∧
        s.udp.wire.length = 1)) = some true := by
    decide +kernel
  rcases Option.map_eq_some_iff.mp ran with ⟨s, path, facts⟩
  rcases of_decide_eq_true facts with ⟨one, image, sent⟩
  have small : 2 * PinNode.CAPACITY < 2 ^ 32 := by decide
  rcases snapshot_verifier_accepts small 4 4 4 (by decide) 1 (fun _ => some blankBuffer) [offer]
    (by decide) with ⟨m, looped, accepts⟩
  rw [looped] at taken
  rcases List.map_eq_singleton_iff.mp (Option.some.inj taken) with ⟨buf, held, shown⟩
  rw [Prod.mk.injEq] at shown
  have count : buf.header.levelCount.toNat = 1 := congrArg UInt32.toNat shown.1
  have filled : ∀ g, 1 ≤ g → g ≤ s.pool.generation →
      ∃ buf, m.snapshots[g - 1]? = some buf ∧ SnapshotSender.Filled 4 (s.pool.image g) buf := by
    intro g low high
    obtain rfl : g = 1 := by omega
    refine ⟨buf, by rw [held]; rfl, by rw [count]; decide, ?_⟩
    intro i inside
    rw [count] at inside
    exact List.map_inj_left.mp (image.trans shown.2.symm) i (List.mem_range.mpr inside)
  have reach := Transition.Reachable.start.run path
  have verdict := (accepts 3 (fun _ => 0) s (by decide) reach filled s.udp.wire 1 (List.Sublist.refl _)).2.2
  rw [sent] at verdict
  exact ⟨s, sent, verdict.mpr ⟨List.ne_nil_of_length_pos (by omega), .inr (Nat.le_refl 1)⟩⟩

end MatcherLoop

end Titan
