import Titan.Book.Admission
import Titan.Book.Feed
import Titan.Book.Rejection

namespace Titan

open RedBlack Linked PinNode
open RBPriceIndex (NIL)

namespace PriceTime

variable {book : Book} {o : Order}

/-- A fill costs the book an order, except the last one of an order that is done. -/
theorem cross_budget (rounds : Nat) (book : Book) (taker : Order) :
    (cross rounds book taker).book.length + (cross rounds book taker).events.length ≤
      book.length + if (cross rounds book taker).taker.remaining = 0 then 1 else 0 := by
  induction rounds generalizing book taker with
  | zero => exact Nat.le_add_right _ _
  | succ rounds ih =>
    rw [cross]
    split
    · exact Nat.le_add_right _ _
    · split
      · exact Nat.le_add_right _ _
      · rename_i maker found
        split
        · dsimp only
          by_cases whole : maker.remaining ≤ taker.remaining
          · simp only [if_pos whole, if_true]
            have later := ih (without book maker.id) (taker.withRemaining (taker.remaining - maker.remaining))
            have fewer := without_length_lt (best_mem found).1
            rw [List.length_cons]
            omega
          · have other : taker.remaining ≠ maker.remaining := by
              intro same
              rw [same] at whole
              exact whole (UInt32.le_refl _)
            simp only [if_neg whole, if_neg other, UInt32.sub_self]
            rw [cross_idle rounds _ (Order.withRemaining_remaining taker 0)]
            rw [if_pos (Order.withRemaining_remaining taker 0), List.length_singleton, reduce, List.length_map]
        · exact Nat.le_add_right _ _

/-- An order emits no more events than one for each order that it takes from the book, and one
    more if it leaves nothing there. -/
theorem submit_budget (slabSize : Nat) (room : Bool) (book : Book) (o : Order) :
    (submit slabSize room book o).book.length + (submit slabSize room book o).events.length ≤ book.length + 1 := by
  have crossed := cross_budget book.length book o
  have outcome := submit_outcome slabSize room book o
  generalize submit slabSize room book o = answer at outcome ⊢
  cases outcome with
  | canceled => exact Nat.le_succ_of_le (List.length_filter_le _ _)
  | refused => exact Nat.le_refl _
  | rested _ residual | turnedAway _ residual =>
    rw [if_neg residual.1] at crossed
    simp only [List.length_append, List.length_singleton]
    omega
  | discarded =>
    dsimp only
    split at crossed <;> omega

def Offers (price : PriceTick) (low high : Nat) (book : Book) : Prop :=
  ∀ r ∈ book, r.side = .asks ∧ r.price = price ∧ low ≤ r.remaining.toNat ∧ r.remaining.toNat ≤ high

theorem Offers.best_eq {price : PriceTick} {low high : Nat} {r : Resting} {rest : Book}
    (offers : Offers price low high (r :: rest)) : best .asks (r :: rest) = some r := by
  have side := (offers r List.mem_cons_self).1
  rw [best, if_pos side]
  cases found : best .asks rest with
  | none => rfl
  | some s =>
    have priced := (offers s (List.mem_cons_of_mem _ (best_mem found).1)).2.1
    simp only [priced, (offers r List.mem_cons_self).2.1, better_self, Bool.false_eq_true, if_false]

theorem cross_offers {price : PriceTick} {low high k : Nat} (some : 2 ≤ low) (offers : Offers price low high book)
    (distinct : (book.map Resting.id).Nodup) (enough : k ≤ book.length) (buy : o.side = Side.BUY)
    (crossing : o.price = price) (size : o.remaining.toNat = total (book.take k) + 1) :
    (cross book.length book o).events.length + (cross book.length book o).taker.remaining.toNat = k + 1 ∧
      (cross book.length book o).taker.remaining.toNat ≤ 1 ∧
      (cross book.length book o).book.length = book.length - k ∧
      Offers price (low - 1) high (cross book.length book o).book := by
  have more : o.remaining ≠ 0 := by
    intro none
    rw [none] at size
    cases size
  have crossed : crosses o price = true := by
    rw [crosses, buy, crossing]
    simp
  have wider : ∀ {b : Book}, Offers price low high b → Offers price (low - 1) high b := by
    intro b held r member
    rcases held r member with ⟨side, at_, least, most⟩
    exact ⟨side, at_, by omega, most⟩
  induction book generalizing k o with
  | nil =>
    have none : k = 0 := Nat.le_zero.mp enough
    subst none
    rw [List.take_zero] at size
    exact ⟨by rw [List.length_nil, cross, size]; rfl, Nat.le_of_eq size, rfl, fun r member => by cases member⟩
  | cons r rest ih =>
    rcases offers r List.mem_cons_self with ⟨side, at_, least, most⟩
    have opposite : (Half.ofSide o.side).opposite = .asks := by
      rw [buy]
      rfl
    rw [List.length_cons, cross, if_neg more, opposite, offers.best_eq]
    simp only [at_, crossed, if_true]
    cases k with
    | zero =>
      rw [List.take_zero] at size
      have one : o.remaining = 1 := UInt32.toNat_inj.mp size
      have part : ¬r.remaining ≤ o.remaining := by
        rw [UInt32.le_iff_toNat_le, one]
        exact Nat.not_le.mpr (Nat.lt_of_lt_of_le some least)
      have other : o.remaining ≠ r.remaining := fun same => part (same ▸ UInt32.le_refl _)
      simp only [if_neg part, if_neg other, UInt32.sub_self]
      rw [cross_idle _ _ (Order.withRemaining_remaining o 0), reduce_head distinct]
      refine ⟨rfl, Nat.zero_le 1, rfl, ?_⟩
      intro s member
      rcases List.mem_cons.mp member with rfl | later
      · refine ⟨side, at_, ?_, ?_⟩
        · show low - 1 ≤ (r.remaining - o.remaining).toNat
          rw [UInt32.toNat_sub_of_le _ _ (UInt32.le_of_lt (UInt32.not_le.mp part)), one]
          exact Nat.sub_le_sub_right least 1
        · show (r.remaining - o.remaining).toNat ≤ high
          rw [UInt32.toNat_sub_of_le _ _ (UInt32.le_of_lt (UInt32.not_le.mp part))]
          omega
      · exact wider offers s (List.mem_cons_of_mem _ later)
    | succ k =>
      rw [List.take_succ_cons, total_cons] at size
      have whole : r.remaining ≤ o.remaining := by
        rw [UInt32.le_iff_toNat_le]
        omega
      simp only [if_pos whole, if_true, without_head distinct]
      have later := ih (k := k) (o := o.withRemaining (o.remaining - r.remaining))
        (fun s member => offers s (List.mem_cons_of_mem _ member)) (List.nodup_cons.mp distinct).2
        (Nat.le_of_succ_le_succ enough) buy crossing
        (by rw [Order.withRemaining_remaining, UInt32.toNat_sub_of_le _ _ whole]; omega)
      have left : (o.withRemaining (o.remaining - r.remaining)).remaining.toNat ≠ 0 := by
        rw [Order.withRemaining_remaining, UInt32.toNat_sub_of_le _ _ whole]
        omega
      rcases later (fun none => left (by rw [none]; rfl)) crossed with ⟨count, last, fewer, held⟩
      refine ⟨?_, last, ?_, held⟩
      · rw [List.length_cons]
        omega
      · rw [fewer]
        omega

theorem submit_buyer {price : PriceTick} {low high k slabSize : Nat} (room : Bool) (some : 2 ≤ low)
    (offers : Offers price low high book) (distinct : (book.map Resting.id).Nodup) (enough : k ≤ book.length)
    (limit : o.type = OrderType.LIMIT) (good : isAdmissible o = true) (buy : o.side = Side.BUY) (crossing : o.price = price)
    (size : o.remaining.toNat = total (book.take k) + 1) (high_ : slabSize ≤ o.id.toNat) :
    (submit slabSize room book o).events.length = k + 1 ∧ (submit slabSize room book o).book.length = book.length - k ∧
      Offers price (low - 1) high (submit slabSize room book o).book := by
  have type : o.type ≠ OrderType.CANCEL := limit_not_cancel limit
  rcases cross_offers some offers distinct enough buy crossing size with ⟨count, last, fewer, held⟩
  by_cases residual : (cross book.length book o).taker.remaining ≠ 0 ∧ o.type = OrderType.LIMIT
  · have one : (cross book.length book o).taker.remaining.toNat ≠ 0 := fun none => residual.1 (UInt32.toNat_inj.mp none)
    rcases cross_taker book.length book o with ⟨left, taker⟩
    have refused : enqueue slabSize room (cross book.length book o).book (cross book.length book o).taker =
        ((cross book.length book o).book, false) := by
      rw [enqueue, if_neg]
      intro usable
      rw [taker] at usable
      exact Nat.not_lt.mpr high_ usable.1
    rw [submit_rests type good residual]
    simp only [refused, Bool.false_eq_true, if_false, List.length_append, List.length_singleton]
    exact ⟨by omega, fewer, held⟩
  · have none : (cross book.length book o).taker.remaining = 0 := by
      by_contra left
      exact residual ⟨left, limit⟩
    rw [none] at count
    rw [submit_discards type good residual]
    exact ⟨count, fewer, held⟩

theorem best_none {h : Half} (apart : ∀ r ∈ book, r.side ≠ h) : best h book = none := by
  induction book with
  | nil => rfl
  | cons r rest ih =>
    rw [best, if_neg (apart r List.mem_cons_self), ih fun s member => apart s (List.mem_cons_of_mem _ member)]

theorem cross_apart (rounds : Nat) (apart : ∀ r ∈ book, r.side ≠ (Half.ofSide o.side).opposite) :
    cross rounds book o = { book := book, taker := o, events := [] } := by
  cases rounds with
  | zero => rfl
  | succ rounds =>
    rw [cross, best_none apart]
    split <;> rfl

theorem submit_offer {price : PriceTick} {low high slabSize : Nat} (offers : Offers price low high book)
    (limit : o.type = OrderType.LIMIT) (good : isAdmissible o = true) (sell : o.side = Side.SELL) (some : o.remaining ≠ 0)
    (within : o.id.toNat < slabSize) (fresh : live book o.id = false) :
    (submit slabSize true book o).events = [] ∧ (submit slabSize true book o).book = book ++ [Resting.of o] := by
  have type : o.type ≠ OrderType.CANCEL := limit_not_cancel limit
  have apart : ∀ r ∈ book, r.side ≠ (Half.ofSide o.side).opposite := by
    intro r member
    rw [(offers r member).1, sell]
    decide
  have idle := cross_apart book.length apart
  have residual : (cross book.length book o).taker.remaining ≠ 0 ∧ o.type = OrderType.LIMIT := by
    rw [idle]
    exact ⟨some, limit⟩
  have entered : enqueue slabSize true book o = (book ++ [Resting.of o], true) := if_pos ⟨within, fresh, rfl⟩
  rw [submit_rests type good residual, idle]
  simp only [entered, if_true, List.append_nil]
  exact ⟨trivial, trivial⟩

end PriceTime

theorem PinNode.Queued.not_full_of_short {n : PinNode} {q : List Nat} (queued : Queued n q) (short : q.length < CAPACITY) :
    n.full = false := by
  rw [Bool.eq_false_iff]
  intro full
  have ones := beq_iff_eq.mp full
  have all : List.range CAPACITY ⊆ q := by
    intro s low
    rw [queued.occupied s, ones, BitVec.getLsbD_not]
    have bound : s < 64 := List.mem_range.mp low
    simpa using bound
  have length := (List.nodup_range.subperm all).length_le
  rw [List.length_range] at length
  omega

namespace OrderBook

variable {b : OrderBook} {cap : Nat} {ladders : Half → Ladder} {book : PriceTime.Book}

theorem Refines.id_lt (refines : Refines b cap book ladders) {r : Resting} (member : r ∈ book) : r.id.toNat < b.slabSize := by
  rcases refines.settled.rep with ⟨L, rep, same⟩
  apply rep.live_lt
  rw [same]
  apply (refines.live_iff r.id).mp
  exact List.any_eq_true.mpr ⟨r, member, by simp⟩

theorem Refines.length_le (refines : Refines b cap book ladders) : book.length ≤ b.slabSize := by
  have distinct : (book.map fun r => r.id.toNat).Nodup := by
    have ids := refines.sim.ids.map (f := UInt64.toNat) fun _ _ same => UInt64.toNat_inj.mp same
    rwa [List.map_map] at ids
  have inside : (book.map fun r => r.id.toNat) ⊆ List.range b.slabSize := by
    intro id held
    rcases List.mem_map.mp held with ⟨r, member, rfl⟩
    exact List.mem_range.mpr (refines.id_lt member)
  have length := (distinct.subperm inside).length_le
  rwa [List.length_map, List.length_range] at length

theorem Refines.stocked (refines : Refines b cap book ladders) (some : book ≠ []) : 0 < b.nodeCount ∧ 0 < cap := by
  rcases List.exists_mem_of_ne_nil _ some with ⟨r, member⟩
  rcases (refines.sim.mem_iff r).mp member with ⟨o, held, -⟩
  rcases refines.settled.rep with ⟨L, rep, rfl⟩
  rcases mem_orders.mp held with ⟨i, inside, spot, found, -⟩
  have node := rep.stock.lt_of_block (Chain.fst_mem_of_mem_spots (mem_blocks_spots.mpr ⟨_, i, inside, found⟩))
  have cell := (rep.valid _).pool.mem_iff.mp (List.mem_append_right _ inside)
  rcases List.mem_map.mp cell with ⟨j, low, -⟩
  have bound := List.mem_range.mp low
  omega

theorem Refines.no_levels (refines : Refines b cap book ladders) {h : Half} (none : ∀ r ∈ book, r.side ≠ h) : ladders h = [] := by
  apply List.eq_nil_iff_forall_not_mem.mpr
  intro rung member
  rcases List.exists_mem_of_ne_nil _ (refines.settled.inhabited h rung member) with ⟨o, queued⟩
  have resting := refines.sim.of_mem (List.mem_flatMap.mpr ⟨rung, member, queued⟩)
  exact none _ resting.1 resting.2

theorem Refines.room_for_offer {price : PriceTick} {low high : Nat} (refines : Refines b cap book ladders)
    (offers : PriceTime.Offers price low high book) (few : book.length < CAPACITY) (nodes : 0 < b.nodeCount)
    (levels : 0 < cap) : b.hasRoom .asks price = true := by
  have count := refines.settled.count
  have idle := refines.settled.freeNodes_of_idle
  have most := refines.sim.length_le (h := .asks) _ rfl
  have bare := refines.no_levels (h := .asks)
  have bidless := refines.no_levels (h := .bids)
  rcases refines.settled.rep with ⟨L, rep, rfl⟩
  apply (rep.hasRoom_iff .asks price).mpr
  rw [Room, rep.iterate_eq]
  cases form : book with
  | nil =>
    subst form
    have none : L.ladder b .asks = [] := bare fun r member => by cases member
    have none' : L.ladder b .bids = [] := bidless fun r member => by cases member
    have empty : (L.tree .asks).inorder = [] := List.map_eq_nil_iff.mp none
    rw [empty]
    refine .inr ⟨(fun i member => by cases member), ?_, ?_⟩
    · intro full
      have pool := (rep.valid .asks).pool.length_eq
      rw [full, empty, List.length_map, List.length_range] at pool
      exact absurd pool (Nat.ne_of_lt levels)
    · intro full
      rw [none, none'] at count
      have free := idle (UInt64.toNat_inj.mp count)
      rw [full] at free
      exact absurd free (Nat.ne_of_lt nodes)
  | cons r rest =>
    subst form
    rcases offers r List.mem_cons_self with ⟨side, at_, -⟩
    rcases (refines.sim.mem_iff r).mp List.mem_cons_self with ⟨o, held, priced, -⟩
    rw [Function.comp_apply, side] at held
    rcases mem_orders.mp held with ⟨i, inside, spot, found, rfl⟩
    have level := rep.levels .asks i inside
    refine .inl ⟨i, inside, ?_, .inl ?_⟩
    · rw [← at_, ← priced]
      exact (level.home _ (List.mem_map_of_mem found)).1.symm
    · rcases spot with ⟨n, s⟩
      have nonempty : (L.chain .asks i).map Prod.fst ≠ [] :=
        List.ne_nil_of_mem (Chain.fst_mem_of_mem_spots found)
      have last := getLastD_mem INVALID_INDEX nonempty
      rw [← level.tail] at last
      rcases List.mem_map.mp last with ⟨block, member, tail⟩
      have queued := (rep.focus inside).queued block.1 block.2 (List.mem_append_left _ member)
      rw [tail] at queued
      apply queued.not_full_of_short
      -- the orders of the node are orders of its level, and those are orders of the book
      have part : block.2.length ≤ (L.chain .asks i).spots.length := by
        rcases List.append_of_mem member with ⟨c₁, c₂, split⟩
        rw [split, Chain.spots_append, List.length_append, Chain.spots_cons, List.length_append, List.length_map]
        omega
      have rung : ((b.maps .asks).key i, (L.chain .asks i).queue b.nodes) ∈ L.ladder b .asks :=
        List.mem_map.mpr ⟨i, inside, rfl⟩
      have whole : ((L.chain .asks i).queue b.nodes).length ≤ (L.ladder b .asks).orders.length := rung_length_le rung
      rw [Chain.queue_length] at whole
      rw [Function.comp_apply] at most
      omega

end OrderBook

namespace Matcher

open OrderBook PriceTime

variable {b b' c : OrderBook} {cap : Nat} {ladders : Half → Ladder} {book : PriceTime.Book} {o : Order}

theorem roomAfterCross_offer {price : PriceTick} {low high : Nat} (refines : Refines b cap book ladders)
    (offers : Offers price low high book) (sell : o.side = Side.SELL) : roomAfterCross b o = b.hasRoom .asks o.price := by
  have home : Half.ofSide o.side = .asks := by
    rw [sell]
    rfl
  have bidless : ladders .bids = [] := refines.no_levels fun r member => by
    rw [(offers r member).1]
    decide
  have apart : meetsBest b o = false := by
    rcases refines.settled.rep with ⟨L, rep, rfl⟩
    have none : (L.tree .bids).inorder = [] := List.map_eq_nil_iff.mp bidless
    have size : (b.maps .bids).size_ = 0 := by
      rw [(rep.valid .bids).count, ← RBTree.inorder_length, none]
      rfl
    rw [meetsBest, home]
    simp [Half.opposite, RBPriceIndex.empty, size]
  rw [roomAfterCross, crossOpposite_apart apart, home]

def noId : OrderId := 0xFFFFFFFFFFFFFFFF

theorem noId_high {slabSize : Nat} (ids : slabSize < 2 ^ 64) : slabSize ≤ noId.toNat := by
  show slabSize ≤ 18446744073709551615
  omega

def idleOrder (seq : Seq) : Order :=
  { id := noId, seq := seq, price := 0, quantity := 0, remaining := 0, side := Side.BUY, type := OrderType.CANCEL }

def offerOrder (id : OrderId) (seq : Seq) : Order :=
  { id := id, seq := seq, price := 1, quantity := 64, remaining := 64, side := Side.SELL, type := OrderType.LIMIT }

def buyOrder (book : PriceTime.Book) (k : Nat) (seq : Seq) : Order :=
  { id := noId, seq := seq, price := 1, quantity := UInt32.ofNat (total (book.take k) + 1),
    remaining := UInt32.ofNat (total (book.take k) + 1), side := Side.BUY, type := OrderType.LIMIT }

/-- What the book `c` of offers can be brought to by one order that emits `m` events. -/
structure Mimicked (c : OrderBook) (cap : Nat) (m : Nat) (seq : Seq) (o : Order) (c' : OrderBook) (book' : PriceTime.Book)
    (ladders' : Half → Ladder) (events : List TradeEvent) : Prop where
  stamp : o.seq = seq
  call : ∃ result, submit c o = some (c', events, result)
  kept : Kept c c'
  refines : Refines c' cap book' ladders'
  count : events.map TradeEvent.feedSeq = List.replicate m seq

theorem mimicked_of {m : Nat} {seq : Seq} (refines : Refines c cap book ladders) (stamp : o.seq = seq)
    (count : (PriceTime.submit c.slabSize (roomAfterCross c o) book o).events.length = m) :
    ∃ c' ladders', Mimicked c cap m seq o c' (PriceTime.submit c.slabSize (roomAfterCross c o) book o).book ladders'
      (PriceTime.submit c.slabSize (roomAfterCross c o) book o).events := by
  rcases submit_step refines o with ⟨c', ladders', answer, rfl, call, kept, refined⟩
  refine ⟨c', ladders', stamp, ⟨_, call⟩, kept, refined, ?_⟩
  apply List.eq_replicate_iff.mpr
  refine ⟨by rw [List.length_map, count], ?_⟩
  intro n held
  rcases List.mem_map.mp held with ⟨event, member, rfl⟩
  rw [submit_feedSeq _ _ _ _ event member, stamp]

theorem total_le {price : PriceTick} {low high : Nat} (offers : Offers price low high book) : total book ≤ book.length * high := by
  induction book with
  | nil => exact Nat.zero_le _
  | cons r rest ih =>
    have first := (offers r List.mem_cons_self).2.2.2
    have later := ih fun s member => offers s (List.mem_cons_of_mem _ member)
    rw [total_cons, List.length_cons, Nat.succ_mul]
    omega

theorem exists_fresh_id {slabSize : Nat} (ids : slabSize < 2 ^ 64) (few : book.length < slabSize) :
    ∃ id : OrderId, id.toNat < slabSize ∧ live book id = false := by
  by_contra none
  have all : List.range slabSize ⊆ book.map fun r => r.id.toNat := by
    intro n low
    have bound := List.mem_range.mp low
    have value : (UInt64.ofNat n).toNat = n := by
      rw [UInt64.toNat_ofNat', Nat.mod_eq_of_lt (by omega)]
    have used : live book (UInt64.ofNat n) = true := by
      by_contra dead
      exact none ⟨UInt64.ofNat n, by omega, Bool.eq_false_iff.mpr dead⟩
    rcases List.any_eq_true.mp used with ⟨r, member, same⟩
    refine List.mem_map.mpr ⟨r, member, ?_⟩
    rw [beq_iff_eq.mp same, value]
  have length := (List.nodup_range.subperm all).length_le
  rw [List.length_range, List.length_map] at length
  omega

theorem mimic_step {a a' n m left : Nat} (refines : Refines c cap book ladders) (ids : c.slabSize < 2 ^ 64)
    (budget : a' + n ≤ a + 1) (part : m ≤ n) (few : m + left < CAPACITY) (offers : Offers 1 (m + left + 1) CAPACITY book)
    (level : min a (m + left) ≤ book.length) (fits : a' ≤ c.slabSize) (stocked : 0 < a' → 0 < c.nodeCount ∧ 0 < cap)
    (seq : Seq) :
    ∃ o c' book' ladders' events, Mimicked c cap m seq o c' book' ladders' events ∧
      Offers 1 (left + 1) CAPACITY book' ∧ min a' left ≤ book'.length := by
  cases m with
  | zero =>
    rw [Nat.zero_add] at offers level few
    by_cases more : book.length < left ∧ book.length < a'
    · -- one more offer is wanted, and there is a place for it
      rcases stocked (by omega) with ⟨nodes, levels⟩
      rcases exists_fresh_id ids (by omega : book.length < c.slabSize) with ⟨id, within, fresh⟩
      have room : roomAfterCross c (offerOrder id seq) = true := by
        rw [roomAfterCross_offer refines offers rfl]
        exact refines.room_for_offer offers (by omega) nodes levels
      have outcome := submit_offer (o := offerOrder id seq) offers rfl rfl rfl (show (64 : Qty) ≠ 0 by decide) within
        fresh
      rw [← room] at outcome
      rcases mimicked_of (m := 0) refines (rfl : (offerOrder id seq).seq = seq) (by rw [outcome.1]; rfl) with
        ⟨c', ladders', mimicked⟩
      rw [outcome.2] at mimicked
      refine ⟨_, c', _, ladders', _, mimicked, ?_, ?_⟩
      · intro r member
        rcases List.mem_append.mp member with old | new
        · exact offers r old
        · rw [List.mem_singleton.mp new]
          exact ⟨rfl, rfl, few, Nat.le_refl _⟩
      · rw [List.length_append, List.length_singleton]
        omega
    · have dead : live book noId = false := by
        rw [Bool.eq_false_iff]
        intro live
        rcases List.any_eq_true.mp live with ⟨r, member, same⟩
        have low := refines.id_lt member
        rw [beq_iff_eq.mp same] at low
        exact Nat.not_lt.mpr (noId_high ids) low
      have outcome : PriceTime.submit c.slabSize (roomAfterCross c (idleOrder seq)) book (idleOrder seq) =
          { book := without book noId, events := [], result := { canceled := live book noId } } := submit_cancel rfl
      rcases mimicked_of (m := 0) refines (rfl : (idleOrder seq).seq = seq) (by rw [outcome]; rfl) with
        ⟨c', ladders', mimicked⟩
      rw [outcome, without_of_dead dead] at mimicked
      exact ⟨_, c', book, ladders', _, mimicked, offers, by omega⟩
  | succ k =>
    have bound : total (book.take k) ≤ (book.take k).length * CAPACITY := total_le fun r member =>
      offers r (List.mem_of_mem_take member)
    have size : (buyOrder book k seq).remaining.toNat = total (book.take k) + 1 := by
      have short : (book.take k).length ≤ k := List.length_take_le _ _
      have most : (book.take k).length * CAPACITY ≤ 64 * 64 := Nat.mul_le_mul (by simp only [CAPACITY] at few; omega) (Nat.le_refl _)
      show (UInt32.ofNat (total (book.take k) + 1)).toNat = total (book.take k) + 1
      rw [UInt32.toNat_ofNat', Nat.mod_eq_of_lt (by omega)]
    have outcome := submit_buyer (o := buyOrder book k seq) (roomAfterCross c (buyOrder book k seq)) (by omega) offers
      refines.sim.ids (by omega : k ≤ book.length) rfl rfl rfl rfl size (noId_high ids)
    rcases mimicked_of refines (rfl : (buyOrder book k seq).seq = seq) outcome.1 with ⟨c', ladders', mimicked⟩
    refine ⟨_, c', _, ladders', _, mimicked, ?_, ?_⟩
    · intro r member
      rcases outcome.2.2 r member with ⟨side, price, least, most⟩
      exact ⟨side, price, by omega, most⟩
    · rw [outcome.2.1]
      omega

/-- Fewer than `CAPACITY` of the numbers in a feed are themselves the numbers in a feed. -/
theorem mimic {ladders' : Half → Ladder} {book' : PriceTime.Book} {events : List TradeEvent} (orders : List Order)
    (refines : Refines b cap book ladders) (ids : b.slabSize < 2 ^ 64) (run : submitAll orders b = some (b', events))
    {seen : List Seq} (part : seen.Sublist (events.map TradeEvent.feedSeq)) (few : seen.length < CAPACITY)
    (kept : c.slabSize = b.slabSize ∧ c.nodeCount = b.nodeCount)
    (refines' : Refines c cap book' ladders') (offers : Offers 1 (seen.length + 1) CAPACITY book')
    (level : min book.length seen.length ≤ book'.length) :
    ∃ orders' c' events', orders'.map Order.seq = orders.map Order.seq ∧ submitAll orders' c = some (c', events') ∧
      events'.map TradeEvent.feedSeq = seen := by
  induction orders generalizing b c book book' ladders ladders' events seen with
  | nil =>
    cases run
    cases part
    exact ⟨[], c, [], rfl, rfl, rfl⟩
  | cons o rest ih =>
    rcases submit_step refines o with ⟨b₁, ladders₁, answer, rfl, call, same, refined⟩
    simp only [submitAll, call, Option.bind_eq_bind, Option.bind_some, Option.bind_eq_some_iff, Option.some.injEq,
      Prod.mk.injEq] at run
    rcases run with ⟨tail, looped, rfl, rfl⟩
    rw [List.map_append] at part
    rcases List.sublist_append_iff.mp part with ⟨now, later, rfl, part₁, part₂⟩
    have budget := submit_budget b.slabSize (roomAfterCross b o) book o
    have marked : now = List.replicate now.length o.seq := by
      apply List.eq_replicate_iff.mpr
      refine ⟨rfl, ?_⟩
      intro n held
      rcases List.mem_map.mp (part₁.subset held) with ⟨event, member, rfl⟩
      exact submit_feedSeq _ _ _ _ event member
    have short := part₁.length_le
    rw [List.length_map] at short
    rw [List.length_append] at few offers level
    have fits := Nat.le_trans refined.length_le (Nat.le_of_eq (same.slabSize.trans kept.1.symm))
    have stocked : 0 < (PriceTime.submit b.slabSize (roomAfterCross b o) book o).book.length → 0 < c.nodeCount ∧ 0 < cap := by
      intro some
      rw [kept.2, ← same.nodeCount]
      exact refined.stocked (List.ne_nil_of_length_pos some)
    rcases mimic_step refines' (kept.1 ▸ ids) budget short few offers level fits stocked o.seq with
      ⟨o', c₁, book₁, ladders₁', events₁, mimicked, offers₁, level₁⟩
    rcases ih refined (same.slabSize ▸ ids) looped part₂ (by omega)
      ⟨by rw [mimicked.kept.slabSize, same.slabSize, kept.1], by rw [mimicked.kept.nodeCount, same.nodeCount, kept.2]⟩
      mimicked.refines offers₁ level₁ with ⟨orders', c', events', seqs, ran, shown⟩
    rcases mimicked.call with ⟨result, call'⟩
    refine ⟨o' :: orders', c', events₁ ++ events', ?_, ?_, ?_⟩
    · rw [List.map_cons, List.map_cons, mimicked.stamp, seqs]
    · rw [submitAll, call']
      simp only [Option.bind_eq_bind, Option.bind_some, ran]
    · rw [List.map_append, mimicked.count, shown, ← marked]

end Matcher

end Titan
