import Titan.Book.Feed
import Titan.Book.SnapshotFeed

namespace Titan

open PinNode OrderBook Decoder SnapshotBuffer

/-- The matcher thread: `events` is what its sink has taken, `snapshots` what it has
    serialized. -/
structure MatcherLoop where
  book : OrderBook
  events : List TradeEvent
  processed : UInt64
  snapshots : List SnapshotBuffer

namespace MatcherLoop

def create (maxNodes idCapacity levelCapacity : Nat) : MatcherLoop where
  book := OrderBook.create maxNodes idCapacity levelCapacity
  events := []
  processed := 0
  snapshots := []

/-- The handler of `consume_batch`. `slot` is the buffer that `try_snapshot` finds free, if
    any, after so many orders. -/
def consume (maxLevels : Nat) (every : UInt64) (slot : UInt64 → Option SnapshotBuffer) (m : MatcherLoop) (o : Order) :
    Option MatcherLoop := do
  let (book, events, _) ← Matcher.submit m.book o
  let m := { m with book := book, events := m.events ++ events, processed := m.processed + 1 }
  if m.processed % every = 0 then
    match slot m.processed with
    | none => some m
    | some buf => do
      let buf ← m.book.serializeL2 maxLevels buf o.seq
      some { m with snapshots := m.snapshots ++ [buf] }
  else some m

def consumeAll (maxLevels : Nat) (every : UInt64) (slot : UInt64 → Option SnapshotBuffer) :
    List Order → MatcherLoop → Option MatcherLoop
  | [], m => some m
  | o :: rest, m => do
    let m ← m.consume maxLevels every slot o
    consumeAll maxLevels every slot rest m

/-- `buf` is the image of the book `b` as of `seq`, and every decoder reads it as such. -/
structure Image (maxLevels bookDepth : Nat) (b : OrderBook) (seq : UInt64) (buf : SnapshotBuffer) : Prop where
  bids : Exact b .bids (b.l2 .bids)
  asks : Exact b .asks (b.l2 .asks)
  holding : Holding maxLevels seq buf ((b.l2 .bids).take (maxLevels / 2)) ((b.l2 .asks).take (maxLevels / 2))
  listener : runSnapshot (datagram maxLevels buf) = some
    { feedSeq := seq.toNat
      lvlCount := min (maxLevels / 2) (b.l2 .bids).length + min (maxLevels / 2) (b.l2 .asks).length
      bids := min (maxLevels / 2) (b.l2 .bids).length
      asks := min (maxLevels / 2) (b.l2 .asks).length
      firstLvl := ((b.l2 .bids).take (maxLevels / 2) ++ (b.l2 .asks).take (maxLevels / 2)).head?.map SnapshotLevel.row }
  ui : onSnapshot bookDepth (datagram maxLevels buf) = some
    { bids := (((b.l2 .bids).take (maxLevels / 2)).map fun l => l.row.cells).take bookDepth
      asks := (((b.l2 .asks).take (maxLevels / 2)).map fun l => l.row.cells).take bookDepth
      bookSeq := seq.toNat }
  maker : ∀ bid ask, ((b.l2 .bids).take (maxLevels / 2)).head? = some bid →
    ((b.l2 .asks).take (maxLevels / 2)).head? = some ask →
    snapshotThread (datagram maxLevels buf) = some (bid.price.toInt, ask.price.toInt)

variable {b : OrderBook} {cap maxLevels : Nat} {ladders : Half → Ladder} {every : UInt64}
  {slot : UInt64 → Option SnapshotBuffer} {m : MatcherLoop} {book : PriceTime.Book}

theorem Image.of_holding {seq : UInt64} {buf : SnapshotBuffer} (settled : Settled b cap ladders) (bookDepth : Nat)
    (holding : Holding maxLevels seq buf ((b.l2 .bids).take (maxLevels / 2)) ((b.l2 .asks).take (maxLevels / 2))) :
    Image maxLevels bookDepth b seq buf where
  bids := settled.exact .bids
  asks := settled.exact .asks
  holding := holding
  listener := by
    rw [runSnapshot_eq holding, List.length_take, List.length_take]
  ui := by
    apply onSnapshot_eq bookDepth holding
    · intro l member
      exact ((settled.exact .bids).totals l (List.mem_of_mem_take member)).2.2
    · intro l member
      exact ((settled.exact .asks).totals l (List.mem_of_mem_take member)).2.2
  maker bid ask bidding asking := by
    rw [snapshotThread_eq holding, bidding, asking]

structure Tracked (init : OrderBook) (maxLevels bookDepth : Nat) (done : List Order) (m : MatcherLoop) : Prop where
  run : Matcher.submitAll done init = some (m.book, m.events)
  snapshots : ∀ buf ∈ m.snapshots, ∃ earlier o later b events, done = earlier ++ o :: later ∧
    Matcher.submitAll (earlier ++ [o]) init = some (b, events) ∧ Image maxLevels bookDepth b o.seq buf

theorem consume_spec {init : OrderBook} {done : List Order} {bookDepth : Nat} (fits : maxLevels < 2 ^ 33)
    (refines : Refines m.book cap book ladders) (tracked : Tracked init maxLevels bookDepth done m) (o : Order) :
    ∃ m' book' ladders', m.consume maxLevels every slot o = some m' ∧ Refines m'.book cap book' ladders' ∧
      Tracked init maxLevels bookDepth (done ++ [o]) m' := by
  rcases Matcher.submit_step refines o with ⟨b', ladders', answer, rfl, call, -, refined⟩
  have single : Matcher.submitAll [o] m.book =
      some (b', (PriceTime.submit m.book.slabSize (Matcher.roomAfterCross m.book o) book o).events) := by
    simp [Matcher.submitAll, call]
  have run := Matcher.submitAll_append done [o] tracked.run single
  have kept : ∀ buf ∈ m.snapshots, ∃ earlier o' later b events, done ++ [o] = earlier ++ o' :: later ∧
      Matcher.submitAll (earlier ++ [o']) init = some (b, events) ∧ Image maxLevels bookDepth b o'.seq buf := by
    intro buf member
    rcases tracked.snapshots buf member with ⟨earlier, o', later, b, events, split, called, image⟩
    exact ⟨earlier, o', later ++ [o], b, events, by rw [split, List.append_assoc]; rfl, called, image⟩
  rw [consume, call]
  simp only [Option.bind_eq_bind, Option.bind_some]
  by_cases due : (m.processed + 1) % every = 0
  · rw [if_pos due]
    cases free : slot (m.processed + 1) with
    | none => exact ⟨_, _, ladders', rfl, refined, run, kept⟩
    | some old =>
      rcases serializeL2_spec refined.settled fits old o.seq with ⟨buf, serialized, holding⟩
      simp only [serialized, Option.bind_some]
      refine ⟨_, _, ladders', rfl, refined, run, ?_⟩
      intro other member
      rcases List.mem_append.mp member with before | last
      · exact kept other before
      · rw [List.mem_singleton.mp last]
        exact ⟨done, o, [], b', _, rfl, run, Image.of_holding refined.settled bookDepth holding⟩
  · rw [if_neg due]
    exact ⟨_, _, ladders', rfl, refined, run, kept⟩

theorem consumeAll_spec {init : OrderBook} {done : List Order} {bookDepth : Nat} (fits : maxLevels < 2 ^ 33)
    (every : UInt64) (slot : UInt64 → Option SnapshotBuffer) (orders : List Order) (refines : Refines m.book cap book ladders)
    (tracked : Tracked init maxLevels bookDepth done m) :
    ∃ m', consumeAll maxLevels every slot orders m = some m' ∧ Tracked init maxLevels bookDepth (done ++ orders) m' := by
  induction orders generalizing m done book ladders with
  | nil =>
    refine ⟨m, rfl, ?_⟩
    rw [List.append_nil]
    exact tracked
  | cons o rest ih =>
    rcases consume_spec fits refines tracked o with ⟨m₁, book₁, ladders₁, called, refined, tracked₁⟩
    rcases ih refined tracked₁ with ⟨m', looped, tracked'⟩
    refine ⟨m', ?_, ?_⟩
    · rw [consumeAll, called]
      exact looped
    · rw [List.append_assoc] at tracked'
      exact tracked'

theorem filter_upto {earlier later : List Order} {o : Order}
    (increasing : (earlier ++ o :: later).Pairwise fun first second => first.seq < second.seq) :
    (earlier ++ o :: later).filter (fun o' => decide (o'.seq ≤ o.seq)) = earlier ++ [o] := by
  rcases List.pairwise_append.mp increasing with ⟨-, behind, across⟩
  have low : earlier.filter (fun o' => decide (o'.seq ≤ o.seq)) = earlier := by
    apply List.filter_eq_self.mpr
    intro o' member
    exact decide_eq_true (UInt64.le_of_lt (across o' member o List.mem_cons_self))
  have high : later.filter (fun o' => decide (o'.seq ≤ o.seq)) = [] := by
    apply List.filter_eq_nil_iff.mpr
    intro o' member reached
    exact UInt64.not_le.mpr ((List.pairwise_cons.mp behind).1 o' member) (of_decide_eq_true reached)
  rw [List.filter_append, low, List.filter_cons_of_pos (by simp), high]

theorem events_upto {init b b' : OrderBook} {earlier later : List Order} {o : Order} {events feed : List TradeEvent}
    (refines : Refines init cap book ladders) (called : Matcher.submitAll (earlier ++ [o]) init = some (b, events))
    (run : Matcher.submitAll (earlier ++ o :: later) init = some (b', feed))
    (increasing : (earlier ++ o :: later).Pairwise fun first second => first.seq < second.seq) :
    feed.filter (fun event => decide (event.feedSeq ≤ o.seq)) = events := by
  rcases Matcher.submitAll_spec (earlier ++ [o]) refines with ⟨b₁, events₁, book₁, ladders₁, again, -, refined, stamped⟩
  rw [called] at again
  cases again
  rcases Matcher.submitAll_spec later refined with ⟨b₂, events₂, -, -, rest, -, -, stamped'⟩
  have whole := Matcher.submitAll_append (earlier ++ [o]) later called rest
  rw [List.append_assoc, List.singleton_append, run] at whole
  have parts : feed = events ++ events₂ := (Prod.mk.inj (Option.some.inj whole)).2
  rcases List.pairwise_append.mp increasing with ⟨-, behind, across⟩
  have before : events.filter (fun event => decide (event.feedSeq ≤ o.seq)) = events := by
    apply List.filter_eq_self.mpr
    intro event inside
    rcases stamped event inside with ⟨o', held, same⟩
    rw [same]
    rcases List.mem_append.mp held with old | last
    · exact decide_eq_true (UInt64.le_of_lt (across o' old o List.mem_cons_self))
    · rw [List.mem_singleton.mp last]
      exact decide_eq_true (UInt64.le_refl _)
  have after : events₂.filter (fun event => decide (event.feedSeq ≤ o.seq)) = [] := by
    apply List.filter_eq_nil_iff.mpr
    intro event inside reached
    rcases stamped' event inside with ⟨o', held, same⟩
    rw [same] at reached
    exact UInt64.not_le.mpr ((List.pairwise_cons.mp behind).1 o' held) (of_decide_eq_true reached)
  rw [parts, List.filter_append, before, after, List.append_nil]

/-- The snapshot of a run as of `seq`: the book of the orders up to there, with the fills of
    the feed up to there taken out of it and no others. -/
structure AsOf (init : OrderBook) (maxLevels bookDepth : Nat) (orders : List Order) (feed : List TradeEvent) (seq : Seq)
    (buf : SnapshotBuffer) : Prop where
  taken : ∃ o ∈ orders, o.seq = seq
  book : ∃ b ledger, Matcher.submitAll (orders.filter fun o => decide (o.seq ≤ seq)) init =
      some (b, feed.filter fun event => decide (event.feedSeq ≤ seq)) ∧
    Matcher.audit (orders.filter fun o => decide (o.seq ≤ seq)) init {} = some (b, ledger) ∧
    ledger.rested = fillTotal (feed.filter fun event => decide (event.feedSeq ≤ seq)) + ledger.canceled + b.bookQty ∧
    Image maxLevels bookDepth b seq buf

/-- Whatever orders arrive, in increasing order, the matcher thread goes through them, and
    every snapshot it takes is the book as of the number in it. -/
theorem snapshots_as_of {maxNodes : Nat} (small : maxNodes * CAPACITY < 2 ^ 32)
    (idCapacity levelCapacity maxLevels bookDepth : Nat) (fits : maxLevels < 2 ^ 33) (every : UInt64) (slot : UInt64 → Option SnapshotBuffer) (orders : List Order)
    (increasing : orders.Pairwise fun o later => o.seq < later.seq) :
    ∃ m, consumeAll maxLevels every slot orders (create maxNodes idCapacity levelCapacity) = some m ∧
      ∀ buf ∈ m.snapshots, AsOf (OrderBook.create maxNodes idCapacity levelCapacity) maxLevels bookDepth orders m.events
        buf.header.feedSeq buf := by
  have start := OrderBook.create_refines small idCapacity levelCapacity
  have fresh : Tracked (OrderBook.create maxNodes idCapacity levelCapacity) maxLevels bookDepth []
      (create maxNodes idCapacity levelCapacity) := by
    refine ⟨rfl, ?_⟩
    intro buf member
    cases member
  rcases consumeAll_spec fits every slot orders start fresh with ⟨m, looped, tracked⟩
  rw [List.nil_append] at tracked
  refine ⟨m, looped, ?_⟩
  intro buf member
  rcases tracked.snapshots buf member with ⟨earlier, o, later, b, events, split, called, image⟩
  have seq : buf.header.feedSeq = o.seq := by
    rw [image.holding.header]
    rfl
  rw [seq]
  have upto := filter_upto (split ▸ increasing)
  have feed := events_upto start called (split ▸ tracked.run) (split ▸ increasing)
  rw [← split] at upto
  refine ⟨⟨o, by rw [split]; simp, rfl⟩, ?_⟩
  rw [upto, feed]
  rcases Matcher.audit_submitAll (earlier ++ [o]) {} called with ⟨ledger, audited, filled⟩
  rcases Matcher.audit_spec (earlier ++ [o]) {} start rfl with ⟨b₁, ledger₁, book₁, ladders₁, again, -, refined, balance⟩
  rw [audited] at again
  cases again
  refine ⟨b, ledger, called, audited, ?_, image⟩
  rw [balance, filled, refined.bookQty_eq]
  show 0 + fillTotal events + ledger.canceled + _ = _
  rw [Nat.zero_add]

def blankBuffer : SnapshotBuffer := ⟨⟨0, 0, 0, 0, 0, 0, 0⟩, fun _ => default⟩

theorem snapshots_as_of_two :
    ∃ m, consumeAll 56 1 (fun _ => some blankBuffer) [sellTen, buyFour] (create 1 4 4) = some m ∧
      m.snapshots.map (fun buf => buf.levels 0) =
        [{ price := 100, totalQty := 10, orderCount := 1, side := 1 }, { price := 100, totalQty := 6, orderCount := 1, side := 1 }] ∧
      ∀ buf ∈ m.snapshots, AsOf (OrderBook.create 1 4 4) 56 20 [sellTen, buyFour] m.events buf.header.feedSeq buf := by
  have small : 1 * CAPACITY < 2 ^ 32 := by decide
  have shown : (consumeAll 56 1 (fun _ => some blankBuffer) [sellTen, buyFour]
      (create 1 4 4)).map (fun m => m.snapshots.map fun buf => buf.levels 0) =
      some [{ price := 100, totalQty := 10, orderCount := 1, side := 1 },
        { price := 100, totalQty := 6, orderCount := 1, side := 1 }] := by
    decide +kernel
  rcases snapshots_as_of small 4 4 56 20 (by decide) 1 (fun _ => some blankBuffer)
    [sellTen, buyFour] (by decide) with ⟨m, looped, images⟩
  rw [looped] at shown
  exact ⟨m, looped, Option.some.inj shown, images⟩

end MatcherLoop

end Titan
