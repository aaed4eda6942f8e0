import Titan.Book.Budget

namespace Titan

open PinNode OrderBook Matcher

namespace UdpPublisher

def MAX_DGRAM_BYTES : Nat := 1440

def TRADES_PER_DGRAM : Nat := MAX_DGRAM_BYTES / 40

/-- The datagrams of a batch from the index `i` on. What `sendto` answers decides whether a
    datagram counts as sent or as dropped, and not how the batch is cut. -/
def publishFrom (batch : List TradeEvent) (i : Nat) : List (List TradeEvent) :=
  if i < batch.length then
    let chunk := min (batch.length - i) TRADES_PER_DGRAM
    (batch.drop i).take chunk :: publishFrom batch (i + chunk)
  else []
termination_by batch.length - i
decreasing_by
  simp only [TRADES_PER_DGRAM, MAX_DGRAM_BYTES]
  omega

def publish (batch : List TradeEvent) : List (List TradeEvent) := publishFrom batch 0

def datagrams (batches : List (List TradeEvent)) : List (List TradeEvent) := batches.flatMap publish

theorem publishFrom_flatten (batch : List TradeEvent) (i : Nat) : (publishFrom batch i).flatten = batch.drop i := by
  induction i using publishFrom.induct batch with
  | case1 i more chunk ih =>
    rw [publishFrom, if_pos more]
    simp only [List.flatten_cons]
    rw [ih, ← List.drop_drop]
    exact List.take_append_drop _ _
  | case2 i done =>
    rw [publishFrom, if_neg done, List.drop_of_length_le (Nat.not_lt.mp done)]
    rfl

theorem publishFrom_short (batch : List TradeEvent) (i : Nat) : ∀ datagram ∈ publishFrom batch i, datagram.length ≤ TRADES_PER_DGRAM := by
  induction i using publishFrom.induct batch with
  | case1 i more chunk ih =>
    rw [publishFrom, if_pos more]
    intro datagram member
    rcases List.mem_cons.mp member with rfl | later
    · exact Nat.le_trans (List.length_take_le _ _) (Nat.min_le_right _ _)
    · exact ih datagram later
  | case2 i done =>
    rw [publishFrom, if_neg done]
    intro datagram member
    cases member

theorem publishFrom_length (batch : List TradeEvent) (i : Nat) :
    (publishFrom batch i).length = (batch.length - i + 35) / 36 := by
  have size : TRADES_PER_DGRAM = 36 := rfl
  induction i using publishFrom.induct batch with
  | case1 i more chunk ih =>
    rw [publishFrom, if_pos more]
    simp only [List.length_cons]
    rw [ih]
    simp only [chunk, size]
    omega
  | case2 i done =>
    rw [publishFrom, if_neg done, List.length_nil]
    omega

variable {batches : List (List TradeEvent)} {orders : List Order} {b init : OrderBook} {events : List TradeEvent}

theorem datagrams_flatten (batches : List (List TradeEvent)) : (datagrams batches).flatten = batches.flatten := by
  induction batches with
  | nil => rfl
  | cons batch rest ih =>
    rw [datagrams] at ih ⊢
    rw [List.flatMap_cons, List.flatten_append, ih, publish, publishFrom_flatten, List.drop_zero, List.flatten_cons]

theorem datagrams_short (batches : List (List TradeEvent)) : ∀ datagram ∈ datagrams batches, datagram.length ≤ TRADES_PER_DGRAM := by
  intro datagram member
  rcases List.mem_flatMap.mp member with ⟨batch, -, inside⟩
  exact publishFrom_short batch 0 datagram inside

def datagramCount (batches : List (List TradeEvent)) : Nat := (batches.map fun batch => (batch.length + 35) / 36).sum

theorem datagrams_length (batches : List (List TradeEvent)) : (datagrams batches).length = datagramCount batches := by
  induction batches with
  | nil => rfl
  | cons batch rest ih =>
    rw [datagrams, datagramCount] at ih ⊢
    rw [List.flatMap_cons, List.length_append, ih, publish, publishFrom_length, List.map_cons, List.sum_cons]
    rfl

def received (arrives : List Bool) (sent : List (List TradeEvent)) : List TradeEvent :=
  ((arrives.zip sent).filter Prod.fst).flatMap Prod.snd

/-- A datagram is lost before one that arrives. -/
structure Gap (arrives : List Bool) (sent : List (List TradeEvent)) : Prop where
  length : arrives.length = sent.length
  hole : ∃ i j : Nat, i < j ∧ arrives[i]? = some false ∧ arrives[j]? = some true

/-- Whatever gap there is, what arrives has numbers that the feed of no run has. -/
def Detectable (init : OrderBook) (batches : List (List TradeEvent)) : Prop :=
  ∀ arrives, Gap arrives (datagrams batches) → ∀ orders b events, Numbered orders →
    submitAll orders init = some (b, events) →
    (received arrives (datagrams batches)).map TradeEvent.feedSeq ≠ events.map TradeEvent.feedSeq

theorem received_last (front : List (List TradeEvent)) (last : List TradeEvent) :
    received (List.replicate front.length false ++ [true]) (front ++ [last]) = last := by
  induction front with
  | nil => simp [received]
  | cons datagram rest ih => simpa [received, List.replicate_succ] using ih

theorem gap_last {front : List (List TradeEvent)} (some : front ≠ []) (last : List TradeEvent) :
    Gap (List.replicate front.length false ++ [true]) (front ++ [last]) where
  length := by simp
  hole := by
    have first := List.length_pos_iff.mpr some
    refine ⟨0, front.length, first, ?_, ?_⟩
    · rw [List.getElem?_append_left (by simpa using first), List.getElem?_replicate_of_lt first]
    · rw [List.getElem?_append_right (by simp)]
      simp

theorem numbered_of_seqs {orders' : List Order} (numbered : Numbered orders) (same : orders'.map Order.seq = orders.map Order.seq) :
    Numbered orders' := by
  intro i o held
  have shown : (orders.map Order.seq)[i]? = some o.seq := by
    rw [← same, List.getElem?_map, held]
    rfl
  rw [List.getElem?_map] at shown
  rcases Option.map_eq_some_iff.mp shown with ⟨o', found, seq⟩
  rw [← seq]
  exact numbered i o' found

/-- In every run: a gap in the datagrams can be told from the numbers alone only where there is
    no gap, because all events went out in one datagram. -/
theorem detectable_iff {maxNodes : Nat} (small : maxNodes * CAPACITY < 2 ^ 32) {idCapacity : Nat} (ids : idCapacity < 2 ^ 64)
    (levelCapacity : Nat) (numbered : Numbered orders)
    (run : submitAll orders (create maxNodes idCapacity levelCapacity) = some (b, events)) (handed : batches.flatten = events) :
    Detectable (create maxNodes idCapacity levelCapacity) batches ↔ datagramCount batches ≤ 1 := by
  rw [← datagrams_length]
  constructor
  · intro detectable
    by_contra several
    rcases List.eq_nil_or_concat (datagrams batches) with none | ⟨front, last, split⟩
    · rw [none] at several
      exact several (Nat.zero_le 1)
    rw [List.concat_eq_append] at split
    have some : front ≠ [] := by
      intro none
      rw [split, none] at several
      exact several (Nat.le_refl 1)
    have whole := datagrams_flatten batches
    rw [handed, split, List.flatten_append, List.flatten_cons, List.flatten_nil, List.append_nil] at whole
    have short := datagrams_short batches last (by rw [split]; simp)
    have part : (last.map TradeEvent.feedSeq).Sublist (events.map TradeEvent.feedSeq) := by
      rw [← whole, List.map_append]
      exact List.sublist_append_right _ _
    have start := create_refines small idCapacity levelCapacity
    have slab : (create maxNodes idCapacity levelCapacity).slabSize < 2 ^ 64 := by
      show (if idCapacity ≠ 0 then idCapacity else maxNodes * CAPACITY) < 2 ^ 64
      split <;> omega
    rcases mimic orders start slab run part (by rw [List.length_map]; exact Nat.lt_of_le_of_lt short (by decide)) ⟨rfl, rfl⟩
      start (fun r member => by cases member) (Nat.zero_le _) with ⟨orders', c, events', seqs, ran, shown⟩
    have gap := gap_last some last
    rw [← split] at gap
    apply detectable _ gap orders' c events' (numbered_of_seqs numbered seqs) ran
    rw [split, received_last, shown]
  · intro one arrives gap
    rcases gap.hole with ⟨i, j, before, -, kept⟩
    have bound := (List.getElem?_eq_some_iff.mp kept).1
    have length := gap.length
    omega

def twoTakers (price : PriceTick) : List Order :=
  [{ id := 1, seq := 0, price := 100, quantity := 10, remaining := 10, side := 1, type := 0 },
    { id := 2, seq := 1, price := price, quantity := 4, remaining := 4, side := 0, type := 0 },
    { id := 3, seq := 2, price := 100, quantity := 4, remaining := 4, side := 0, type := 0 }]

def takerFill (taker : OrderId) (seq : Seq) : TradeEvent :=
  { takerId := taker, makerId := 1, price := 100, feedSeq := seq, quantity := 4, takerSide := 0, status := 0 }

theorem twoTakers_numbered (price : PriceTick) : Numbered (twoTakers price) := by
  intro i o held
  match i, held with
  | 0, held =>
    cases held
    rfl
  | 1, held =>
    cases held
    rfl
  | 2, held =>
    cases held
    rfl

theorem detectable_iff_one_datagram :
    ∃ b, submitAll (twoTakers 100) (create 2 4 4) = some (b, [takerFill 2 1, takerFill 3 2]) ∧
      Detectable (create 2 4 4) [[takerFill 2 1, takerFill 3 2]] := by
  have answer : (submitAll (twoTakers 100) (create 2 4 4)).map Prod.snd = some [takerFill 2 1, takerFill 3 2] := by
    decide +kernel
  rcases Option.map_eq_some_iff.mp answer with ⟨⟨b, events⟩, run, rfl⟩
  exact ⟨b, run, (detectable_iff (by decide) (by decide) 4 (twoTakers_numbered 100) run rfl).mpr (by decide)⟩

/-- Each fill in a datagram of its own, and the first is lost: the rest has the numbers of a run
    in which the first taker is a bid that rests. -/
theorem lost_datagram_undetected :
    ∃ b b', submitAll (twoTakers 100) (create 2 4 4) = some (b, [takerFill 2 1, takerFill 3 2]) ∧
      Gap [false, true] (datagrams [[takerFill 2 1], [takerFill 3 2]]) ∧
      received [false, true] (datagrams [[takerFill 2 1], [takerFill 3 2]]) = [takerFill 3 2] ∧
      submitAll (twoTakers 90) (create 2 4 4) = some (b', [takerFill 3 2]) ∧
      ¬Detectable (create 2 4 4) [[takerFill 2 1], [takerFill 3 2]] := by
  have answer : (submitAll (twoTakers 100) (create 2 4 4)).map Prod.snd = some [takerFill 2 1, takerFill 3 2] := by
    decide +kernel
  have answer' : (submitAll (twoTakers 90) (create 2 4 4)).map Prod.snd = some [takerFill 3 2] := by
    decide +kernel
  rcases Option.map_eq_some_iff.mp answer with ⟨⟨b, events⟩, run, rfl⟩
  rcases Option.map_eq_some_iff.mp answer' with ⟨⟨b', events'⟩, run', rfl⟩
  have single : ∀ event, publish [event] = [[event]] := by
    intro event
    simp [publish, publishFrom, TRADES_PER_DGRAM, MAX_DGRAM_BYTES]
  have cut : datagrams [[takerFill 2 1], [takerFill 3 2]] = [[takerFill 2 1], [takerFill 3 2]] := by
    rw [datagrams, List.flatMap_cons, List.flatMap_cons, single, single]
    rfl
  have gap : Gap [false, true] [[takerFill 2 1], [takerFill 3 2]] := ⟨rfl, 0, 1, by decide, rfl, rfl⟩
  rw [cut]
  refine ⟨b, b', run, gap, rfl, run', ?_⟩
  intro detectable
  rw [← cut] at gap
  apply detectable [false, true] gap (twoTakers 90) b' _ (twoTakers_numbered 90) run'
  rw [cut]
  rfl

end UdpPublisher

end Titan
