import Titan.Data.LittleEndian
import Titan.Net.UdpPublisher

namespace Titan

open LittleEndian

namespace TradeEvent

def fields (event : TradeEvent) : List (Nat × Nat) :=
  [(8, event.takerId.toNat), (8, event.makerId.toNat), (8, event.price.toUInt64.toNat), (8, event.feedSeq.toNat),
    (4, event.quantity.toNat), (1, event.takerSide.toNat), (1, event.status.toNat), (2, 0)]

def bytes (event : TradeEvent) : List UInt8 := pack event.fields

theorem bytes_length (event : TradeEvent) : event.bytes.length = 40 := by
  rw [bytes, pack_length]
  rfl

theorem fields_fit (event : TradeEvent) : ∀ field ∈ event.fields, field.2 < 256 ^ field.1 := by
  have taker := event.takerId.toNat_lt
  have maker := event.makerId.toNat_lt
  have price := event.price.toUInt64.toNat_lt
  have seq := event.feedSeq.toNat_lt
  have quantity := event.quantity.toNat_lt
  have side := event.takerSide.toNat_lt
  have status := event.status.toNat_lt
  simp only [fields, List.mem_cons, List.not_mem_nil, or_false]
  rintro field (rfl | rfl | rfl | rfl | rfl | rfl | rfl | rfl) <;> simp only <;> omega

end TradeEvent

/-- What `sendto` answers: how many bytes it took, or an error, of which `EINTR` stands apart. -/
inductive Sendto
  | took (bytes : Nat)
  | interrupted
  | failed
  deriving DecidableEq

/-- The counters, and the payloads that the kernel took. Where `sendto` answers with fewer bytes nothing
    is on the wire: a datagram is taken whole or not at all. -/
structure UdpPublisher where
  sent_ : UInt64 := 0
  dropped_ : UInt64 := 0
  datagrams_ : UInt64 := 0
  drops_ : UInt64 := 0
  wire : List (List UInt8) := []

namespace UdpPublisher

variable {batch : List TradeEvent} {batches : List (List TradeEvent)} {i : Nat}

def payload (datagram : List TradeEvent) : List UInt8 := datagram.flatMap TradeEvent.bytes

theorem payload_length (datagram : List TradeEvent) : (payload datagram).length = 40 * datagram.length :=
  length_flatMap TradeEvent.bytes_length datagram

/-- The counters after a datagram was taken or not; a short answer counts as a drop, as any error does. -/
def settle (u : UdpPublisher) (taken : Bool) (datagram : List TradeEvent) : UdpPublisher :=
  if taken then
    { u with
      datagrams_ := u.datagrams_ + 1
      sent_ := u.sent_ + UInt64.ofNat datagram.length
      wire := u.wire ++ [payload datagram] }
  else { u with drops_ := u.drops_ + 1, dropped_ := u.dropped_ + UInt64.ofNat datagram.length }

/-- The loop of `publish` from the index `i` on, against these answers of `sendto`. `none` is a call
    that is still waiting for an answer. -/
def transmitFrom (batch : List TradeEvent) : List Sendto → Nat → UdpPublisher → Option (UdpPublisher × List Sendto)
  | [], i, u => if i < batch.length then none else some (u, [])
  | reply :: rest, i, u =>
    if i < batch.length then
      let chunk := min (batch.length - i) TRADES_PER_DGRAM
      let datagram := (batch.drop i).take chunk
      if reply = .interrupted then transmitFrom batch rest i u
      else transmitFrom batch rest (i + chunk) (u.settle (reply = .took (chunk * 40)) datagram)
    else some (u, reply :: rest)

def transmit (u : UdpPublisher) (batch : List TradeEvent) (replies : List Sendto) : Option (UdpPublisher × List Sendto) :=
  transmitFrom batch replies 0 u

def transmitAll (u : UdpPublisher) : List (List TradeEvent) → List Sendto → Option (UdpPublisher × List Sendto)
  | [], replies => some (u, replies)
  | batch :: batches, replies => do
    let (u, rest) ← u.transmit batch replies
    u.transmitAll batches rest

/-- `send_raw`, which answers whether the datagram was taken, and puts nothing on the wire for a short
    answer. -/
def sendRaw (u : UdpPublisher) (data : List UInt8) : List Sendto → Option (Bool × UdpPublisher × List Sendto)
  | [] => none
  | reply :: rest =>
    if reply = .interrupted then u.sendRaw data rest
    else if reply = .took data.length then
      some (true, { u with datagrams_ := u.datagrams_ + 1, wire := u.wire ++ [data] }, rest)
    else some (false, { u with drops_ := u.drops_ + 1 }, rest)

def settleAll (u : UdpPublisher) (outcomes : List (Bool × List TradeEvent)) : UdpPublisher :=
  outcomes.foldl (fun u outcome => u.settle outcome.1 outcome.2) u

/-- Interrupted calls are made again, so each answer that is not an interruption settles one datagram. -/
def decisive (replies : List Sendto) : Nat := replies.countP fun reply => decide (reply ≠ .interrupted)

theorem decisive_cons (reply : Sendto) (replies : List Sendto) :
    decisive (reply :: replies) = decisive replies + if reply = .interrupted then 0 else 1 := by
  rw [decisive, List.countP_cons]
  by_cases again : reply = .interrupted <;> simp [again, decisive]

theorem publishFrom_succ (more : i < batch.length) :
    publishFrom batch i = (batch.drop i).take (min (batch.length - i) TRADES_PER_DGRAM) ::
      publishFrom batch (i + min (batch.length - i) TRADES_PER_DGRAM) := by
  rw [publishFrom, if_pos more]

theorem publishFrom_done (done : ¬i < batch.length) : publishFrom batch i = [] := by
  rw [publishFrom, if_neg done]

theorem transmitFrom_spec (batch : List TradeEvent) (replies : List Sendto) (i : Nat) (u : UdpPublisher) :
    (∀ u' rest, transmitFrom batch replies i u = some (u', rest) →
      decisive replies = decisive rest + (publishFrom batch i).length ∧ ∃ taken : List Bool,
        taken.length = (publishFrom batch i).length ∧ u' = u.settleAll (taken.zip (publishFrom batch i))) ∧
      (transmitFrom batch replies i u = none → decisive replies < (publishFrom batch i).length) := by
  induction replies generalizing i u with
  | nil =>
    rw [transmitFrom]
    by_cases more : i < batch.length
    · rw [if_pos more, publishFrom_succ more]
      exact ⟨fun _ _ call => (Option.some_ne_none _ call.symm).elim, fun _ => Nat.succ_pos _⟩
    · rw [if_neg more, publishFrom_done more]
      refine ⟨?_, fun call => (Option.some_ne_none _ call).elim⟩
      intro u' rest call
      cases call
      exact ⟨rfl, [], rfl, rfl⟩
  | cons reply replies ih =>
    rw [transmitFrom, decisive_cons]
    by_cases more : i < batch.length
    · rw [if_pos more]
      by_cases again : reply = .interrupted
      · rw [if_pos again, if_pos again]
        exact ih i u
      · rw [if_neg again, if_neg again, publishFrom_succ more]
        rcases ih (i + min (batch.length - i) TRADES_PER_DGRAM)
          (u.settle (reply = .took (min (batch.length - i) TRADES_PER_DGRAM * 40))
          ((batch.drop i).take (min (batch.length - i) TRADES_PER_DGRAM))) with ⟨returns, waits⟩
        refine ⟨?_, ?_⟩
        · intro u' rest call
          rcases returns u' rest call with ⟨count, taken, length, same⟩
          refine ⟨?_, _ :: taken, ?_, same⟩
          · rw [List.length_cons]
            omega
          · rw [List.length_cons, List.length_cons, length]
        · intro call
          have less := waits call
          rw [List.length_cons]
          omega
    · rw [if_neg more, publishFrom_done more]
      refine ⟨?_, fun call => (Option.some_ne_none _ call).elim⟩
      intro u' rest call
      cases call
      exact ⟨(decisive_cons ..).symm, [], rfl, rfl⟩

theorem settleAll_append (u : UdpPublisher) (outcomes later : List (Bool × List TradeEvent)) :
    u.settleAll (outcomes ++ later) = (u.settleAll outcomes).settleAll later := List.foldl_append

theorem transmitAll_spec (batches : List (List TradeEvent)) (replies : List Sendto) (u : UdpPublisher) :
    (∀ u' rest, u.transmitAll batches replies = some (u', rest) →
      decisive replies = decisive rest + (UdpPublisher.datagrams batches).length ∧ ∃ taken : List Bool,
        taken.length = (UdpPublisher.datagrams batches).length ∧ u' = u.settleAll (taken.zip (UdpPublisher.datagrams batches))) ∧
      (u.transmitAll batches replies = none → decisive replies < (UdpPublisher.datagrams batches).length) := by
  induction batches generalizing replies u with
  | nil =>
    refine ⟨?_, fun call => (Option.some_ne_none _ call).elim⟩
    intro u' rest call
    cases call
    exact ⟨rfl, [], rfl, rfl⟩
  | cons batch batches ih =>
    have cut : UdpPublisher.datagrams (batch :: batches) = publishFrom batch 0 ++ UdpPublisher.datagrams batches := List.flatMap_cons
    rcases transmitFrom_spec batch replies 0 u with ⟨returns, waits⟩
    rw [transmitAll, transmit, cut, List.length_append]
    cases first : transmitFrom batch replies 0 u with
    | none =>
      refine ⟨fun _ _ call => (Option.some_ne_none _ call.symm).elim, fun _ => ?_⟩
      have less := waits first
      omega
    | some answer =>
      rcases answer with ⟨u₁, rest₁⟩
      rcases returns u₁ rest₁ first with ⟨count, taken, length, rfl⟩
      rcases ih rest₁ (u.settleAll (taken.zip (publishFrom batch 0))) with ⟨returns', waits'⟩
      refine ⟨?_, ?_⟩
      · intro u' rest call
        rcases returns' u' rest call with ⟨count', taken', length', rfl⟩
        refine ⟨by omega, taken ++ taken', by rw [List.length_append, length, length'], ?_⟩
        rw [List.zip_append length, settleAll_append]
      · intro call
        have less := waits' call
        omega

def split (kind : Bool) (outcomes : List (Bool × List TradeEvent)) : List (List TradeEvent) :=
  (outcomes.filter fun outcome => outcome.1 == kind).map Prod.snd

theorem split_cons (kind taken : Bool) (datagram : List TradeEvent) (outcomes : List (Bool × List TradeEvent)) :
    split kind ((taken, datagram) :: outcomes) = if taken = kind then datagram :: split kind outcomes else split kind outcomes := by
  rw [split, List.filter_cons]
  cases taken <;> cases kind <;> rfl

structure Tallied (u : UdpPublisher) (outcomes : List (Bool × List TradeEvent)) (u' : UdpPublisher) : Prop where
  wire : u'.wire = u.wire ++ (split true outcomes).map payload
  datagrams : u'.datagrams_ = u.datagrams_ + UInt64.ofNat (split true outcomes).length
  drops : u'.drops_ = u.drops_ + UInt64.ofNat (split false outcomes).length
  sent : u'.sent_ = u.sent_ + UInt64.ofNat (split true outcomes).flatten.length
  dropped : u'.dropped_ = u.dropped_ + UInt64.ofNat (split false outcomes).flatten.length

theorem count_next (n : UInt64) (k : Nat) : n + 1 + UInt64.ofNat k = n + UInt64.ofNat (k + 1) := by
  rw [UInt64.ofNat_add, UInt64.add_assoc, UInt64.add_comm 1]
  rfl

theorem count_more (n : UInt64) (j k : Nat) : n + UInt64.ofNat j + UInt64.ofNat k = n + UInt64.ofNat (j + k) := by
  rw [UInt64.ofNat_add, UInt64.add_assoc]

theorem settleAll_tallied (u : UdpPublisher) (outcomes : List (Bool × List TradeEvent)) :
    Tallied u outcomes (u.settleAll outcomes) := by
  induction outcomes generalizing u with
  | nil =>
    exact ⟨(List.append_nil _).symm, (UInt64.add_zero _).symm, (UInt64.add_zero _).symm, (UInt64.add_zero _).symm,
      (UInt64.add_zero _).symm⟩
  | cons outcome outcomes ih =>
    rcases outcome with ⟨taken, datagram⟩
    rcases ih (u.settle taken datagram) with ⟨wire, datagrams, drops, sent, dropped⟩
    have next : u.settleAll ((taken, datagram) :: outcomes) = (u.settle taken datagram).settleAll outcomes := rfl
    rw [next]
    cases taken with
    | true =>
      have kept : split true ((true, datagram) :: outcomes) = datagram :: split true outcomes := split_cons ..
      have lost : split false ((true, datagram) :: outcomes) = split false outcomes := split_cons ..
      refine ⟨?_, ?_, ?_, ?_, ?_⟩
      · rw [wire, kept]
        exact List.append_assoc ..
      · rw [datagrams, kept]
        exact count_next ..
      · rw [drops, lost]
        rfl
      · rw [sent, kept, List.flatten_cons, List.length_append]
        exact count_more ..
      · rw [dropped, lost]
        rfl
    | false =>
      have kept : split true ((false, datagram) :: outcomes) = split true outcomes := split_cons ..
      have lost : split false ((false, datagram) :: outcomes) = datagram :: split false outcomes := split_cons ..
      refine ⟨?_, ?_, ?_, ?_, ?_⟩
      · rw [wire, kept]
        rfl
      · rw [datagrams, kept]
        rfl
      · rw [drops, lost]
        exact count_next ..
      · rw [sent, kept]
        rfl
      · rw [dropped, lost, List.flatten_cons, List.length_append]
        exact count_more ..

theorem split_length (outcomes : List (Bool × List TradeEvent)) :
    (split true outcomes).length + (split false outcomes).length = outcomes.length ∧
      (split true outcomes).flatten.length + (split false outcomes).flatten.length = (outcomes.map Prod.snd).flatten.length := by
  induction outcomes with
  | nil => exact ⟨rfl, rfl⟩
  | cons outcome outcomes ih =>
    rcases outcome with ⟨taken, datagram⟩
    cases taken <;> simp only [split_cons, if_true, Bool.true_eq_false, Bool.false_eq_true, if_false, List.map_cons, List.length_cons,
      List.flatten_cons, List.length_append] <;> omega

theorem split_sublist (kind : Bool) (outcomes : List (Bool × List TradeEvent)) :
    (split kind outcomes).Sublist (outcomes.map Prod.snd) := List.filter_sublist.map _

/-- What the publisher says it sent and dropped, against what it was given and what left the socket. -/
structure Accounted (batches : List (List TradeEvent)) (u : UdpPublisher) : Prop where
  wire : ∃ kept : List (List TradeEvent), kept.Sublist (UdpPublisher.datagrams batches) ∧ u.wire = kept.map payload ∧
    u.datagrams_ = UInt64.ofNat kept.length ∧ u.sent_ = UInt64.ofNat kept.flatten.length
  short : ∀ data ∈ u.wire, 40 ≤ data.length ∧ data.length ≤ MAX_DGRAM_BYTES
  events : u.sent_ + u.dropped_ = UInt64.ofNat batches.flatten.length
  calls : u.datagrams_ + u.drops_ = UInt64.ofNat (datagramCount batches)

theorem publishFrom_some (batch : List TradeEvent) (i : Nat) : ∀ datagram ∈ publishFrom batch i, datagram ≠ [] := by
  induction i using publishFrom.induct batch with
  | case1 i more chunk ih =>
    rw [publishFrom_succ more]
    intro datagram member
    rcases List.mem_cons.mp member with rfl | later
    · apply List.ne_nil_of_length_pos
      simp only [List.length_take, List.length_drop, TRADES_PER_DGRAM, MAX_DGRAM_BYTES]
      omega
    · exact ih datagram later
  | case2 i done =>
    rw [publishFrom_done done]
    intro datagram member
    cases member

theorem datagrams_some (batches : List (List TradeEvent)) : ∀ datagram ∈ UdpPublisher.datagrams batches, datagram ≠ [] := by
  intro datagram member
  rcases List.mem_flatMap.mp member with ⟨batch, -, inside⟩
  exact publishFrom_some batch 0 datagram inside

theorem accounted_of_settled {taken : List Bool} (length : taken.length = (UdpPublisher.datagrams batches).length) :
    Accounted batches (settleAll {} (taken.zip (UdpPublisher.datagrams batches))) := by
  have tally := settleAll_tallied {} (taken.zip (UdpPublisher.datagrams batches))
  have whole : (taken.zip (UdpPublisher.datagrams batches)).map Prod.snd = UdpPublisher.datagrams batches :=
    List.map_snd_zip (Nat.le_of_eq length.symm)
  have sublist := split_sublist true (taken.zip (UdpPublisher.datagrams batches))
  rcases split_length (taken.zip (UdpPublisher.datagrams batches)) with ⟨calls, events⟩
  rw [whole] at sublist events
  rw [datagrams_flatten] at events
  rw [List.length_zip, length, Nat.min_self, datagrams_length] at calls
  have wire : (settleAll {} (taken.zip (UdpPublisher.datagrams batches))).wire =
      (split true (taken.zip (UdpPublisher.datagrams batches))).map payload := by
    rw [tally.wire]
    rfl
  refine ⟨⟨split true (taken.zip (UdpPublisher.datagrams batches)), sublist, wire, ?_, ?_⟩, ?_, ?_, ?_⟩
  · rw [tally.datagrams]
    exact UInt64.zero_add _
  · rw [tally.sent]
    exact UInt64.zero_add _
  · intro data member
    rw [wire] at member
    rcases List.mem_map.mp member with ⟨datagram, inside, rfl⟩
    have kept := sublist.subset inside
    have low := List.length_pos_iff.mpr (datagrams_some batches datagram kept)
    have high := datagrams_short batches datagram kept
    rw [TRADES_PER_DGRAM, MAX_DGRAM_BYTES] at high
    rw [payload_length, MAX_DGRAM_BYTES]
    omega
  · rw [tally.sent, tally.dropped, ← events, UInt64.ofNat_add]
    show 0 + _ + (0 + _) = _
    rw [UInt64.zero_add, UInt64.zero_add]
  · rw [tally.datagrams, tally.drops, ← calls, UInt64.ofNat_add]
    show 0 + _ + (0 + _) = _
    rw [UInt64.zero_add, UInt64.zero_add]

/-- Whatever `sendto` answers: the calls of `publish` return once there are enough answers that are
    not interruptions, each event is counted once, as sent or as dropped, and what left the socket
    is what was counted as sent. -/
theorem publish_accounts (batches : List (List TradeEvent)) (replies : List Sendto) :
    ((transmitAll {} batches replies).isSome = true ↔ datagramCount batches ≤ decisive replies) ∧
      ∀ u rest, transmitAll {} batches replies = some (u, rest) → Accounted batches u := by
  rcases transmitAll_spec batches replies {} with ⟨returns, waits⟩
  rw [datagrams_length] at waits
  refine ⟨?_, ?_⟩
  · cases call : transmitAll {} batches replies with
    | none =>
      have less := waits call
      simp only [Option.isSome_none, Bool.false_eq_true, false_iff]
      omega
    | some answer =>
      have count := (returns answer.1 answer.2 call).1
      rw [datagrams_length] at count
      simp only [Option.isSome_some, true_iff]
      omega
  · intro u rest call
    rcases (returns u rest call).2 with ⟨taken, length, rfl⟩
    exact accounted_of_settled length

end UdpPublisher

end Titan
