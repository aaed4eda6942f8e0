import Titan.Book.Conservation

namespace Titan

def TradeEvent.fillOf (id : OrderId) (event : TradeEvent) : Nat :=
  if event.status = TRADE_STATUS_FILL then
    (if event.takerId = id then event.quantity.toNat else 0) + if event.makerId = id then event.quantity.toNat else 0
  else 0

def fillsOf (id : OrderId) (events : List TradeEvent) : Nat := (events.map (TradeEvent.fillOf id)).sum

@[simp] theorem fillsOf_nil (id : OrderId) : fillsOf id [] = 0 := rfl

theorem fillsOf_cons (id : OrderId) (event : TradeEvent) (events : List TradeEvent) :
    fillsOf id (event :: events) = event.fillOf id + fillsOf id events := rfl

theorem fillsOf_append (id : OrderId) (events later : List TradeEvent) :
    fillsOf id (events ++ later) = fillsOf id events + fillsOf id later := by
  simp [fillsOf]

namespace PriceTime

variable {book : Book} {o taker : Order} {id : OrderId} {slabSize : Nat} {room : Bool}

theorem fillOf_fill (id : OrderId) (taker : Order) (maker : Resting) (qty : Qty) :
    (fillEvent taker maker qty).fillOf id = (if taker.id = id then qty.toNat else 0) + if maker.id = id then qty.toNat else 0 := by
  exact if_pos rfl

theorem fillOf_reject (id : OrderId) (taker : Order) : (rejectEvent taker).fillOf id = 0 :=
  if_neg (show TRADE_STATUS_REJECTED ≠ TRADE_STATUS_FILL by decide)

theorem held_append (book later : Book) (id : OrderId) : held (book ++ later) id = held book id + held later id := by
  rw [held, List.filter_append, total_append]
  rfl

theorem held_without (book : Book) (id other : OrderId) : held (without book other) id = if id = other then 0 else held book id := by
  rw [held, without, List.filter_filter]
  split
  · rename_i same
    have none : book.filter (fun r => decide (r.id = id) && decide (r.id ≠ other)) = [] := by
      apply List.filter_eq_nil_iff.mpr
      intro r _
      simp [same]
    rw [none]
    rfl
  · rename_i apart
    rw [held]
    congr 1
    apply List.filter_congr
    intro r _
    by_cases here : r.id = id
    · simp [here, apart]
    · simp [here]

theorem held_reduce_other {other : OrderId} (apart : id ≠ other) (left : Qty) : held (reduce book other left) id = held book id := by
  induction book with
  | nil => rfl
  | cons r rest ih =>
    rw [reduce, List.map_cons, ← reduce, held, held, List.filter_cons, List.filter_cons]
    by_cases hit : r.id = other
    · have away : r.id ≠ id := fun same => apart (same.symm.trans hit)
      rw [if_pos hit]
      simp only [away, decide_false, Bool.false_eq_true, if_false]
      exact ih
    · rw [if_neg hit]
      split
      · rw [total_cons, total_cons]
        exact congrArg _ ih
      · exact ih

theorem held_filled (distinct : (book.map Resting.id).Nodup) {maker : Resting} (member : maker ∈ book) {qty : Qty}
    (low : maker.remaining.toNat = (maker.remaining - qty).toNat + qty.toNat) (id : OrderId) :
    held book id = held (filled book maker qty) id + if maker.id = id then qty.toNat else 0 := by
  rw [filled]
  split
  · rename_i whole
    rw [held_without]
    by_cases same : maker.id = id
    · rw [if_pos same.symm, if_pos same, ← same, held_eq distinct member, whole, Nat.zero_add]
    · rw [if_neg (Ne.symm same), if_neg same, Nat.add_zero]
  · by_cases same : maker.id = id
    · subst same
      have kept : { maker with remaining := maker.remaining - qty } ∈ reduce book maker.id (maker.remaining - qty) :=
        List.mem_map.mpr ⟨maker, member, if_pos rfl⟩
      have distinct' : ((reduce book maker.id (maker.remaining - qty)).map Resting.id).Nodup := by rwa [reduce_ids]
      have left := held_eq distinct' kept
      dsimp only at left
      rw [left, held_eq distinct member, if_pos rfl]
      exact low
    · rw [held_reduce_other (Ne.symm same), if_neg same, Nat.add_zero]

/-- Crossing moves quantity out of each resting order into its fills. -/
theorem cross_within (rounds : Nat) (distinct : (book.map Resting.id).Nodup) (taker : Order) (id : OrderId) :
    fillsOf id (cross rounds book taker).events + held (cross rounds book taker).book id =
      held book id + if taker.id = id then fillTotal (cross rounds book taker).events else 0 := by
  induction rounds generalizing book taker with
  | zero => simp [cross]
  | succ rounds ih =>
    rcases cross_succ rounds book taker with idle | ⟨maker, member, qty, -, gave, eq⟩
    · rw [idle]
      simp
    · have later := ih (filled_ids distinct maker qty) (taker.withRemaining (taker.remaining - qty))
      have moved := held_filled distinct member gave id
      rw [Order.withRemaining_id] at later
      rw [eq]
      simp only [fillsOf_cons, fillOf_fill, fillTotal_fill]
      split at later
      · rename_i same
        simp only [if_pos same]
        omega
      · rename_i apart
        simp only [if_neg apart]
        omega

theorem cross_names (rounds : Nat) (book : Book) (taker : Order) :
    ∀ event ∈ (cross rounds book taker).events, event.takerId = taker.id ∧ event.status = TRADE_STATUS_FILL := by
  induction rounds generalizing book taker with
  | zero =>
    intro event member
    cases member
  | succ rounds ih =>
    rcases cross_succ rounds book taker with idle | ⟨maker, -, qty, -, -, eq⟩
    · rw [idle]
      intro event member
      cases member
    · rw [eq]
      intro event member
      rcases List.mem_cons.mp member with rfl | later
      · exact ⟨rfl, rfl⟩
      · exact ih (filled book maker qty) (taker.withRemaining (taker.remaining - qty)) event later

theorem cross_live (rounds : Nat) (book : Book) (taker : Order) (alive : live (cross rounds book taker).book id = true) :
    live book id = true := by
  rcases List.any_eq_true.mp alive with ⟨r, member, same⟩
  rcases cross_ids rounds book taker r member with ⟨s, held, eq⟩
  exact List.any_eq_true.mpr ⟨s, held, by rwa [eq]⟩

theorem held_of (taker : Order) (id : OrderId) : held [Resting.of taker] id = if taker.id = id then taker.remaining.toNat else 0 := by
  rw [held, List.filter_singleton]
  by_cases same : taker.id = id
  · simp [Resting.of, same, total]
  · simp [Resting.of, same, total]

theorem submit_within (slabSize : Nat) (room : Bool) (distinct : (book.map Resting.id).Nodup) (o : Order) (id : OrderId) :
    fillsOf id (submit slabSize room book o).events + held (submit slabSize room book o).book id ≤
      held book id + if o.id = id ∧ o.type ≠ OrderType.CANCEL then o.remaining.toNat else 0 := by
  have budget := cross_within book.length distinct o id
  have taken := (cross_total book.length distinct o).2
  have within : o.type ≠ OrderType.CANCEL →
      fillsOf id (cross book.length book o).events + held (cross book.length book o).book id +
        (if o.id = id then (cross book.length book o).taker.remaining.toNat else 0) =
      held book id + if o.id = id ∧ o.type ≠ OrderType.CANCEL then o.remaining.toNat else 0 := by
    intro type
    by_cases same : o.id = id
    · rw [if_pos same] at budget
      rw [if_pos same, if_pos ⟨same, type⟩]
      omega
    · rw [if_neg same] at budget
      rw [if_neg same, if_neg fun both => same both.1]
      omega
  have outcome := submit_outcome slabSize room book o
  generalize submit slabSize room book o = answer at outcome
  cases outcome with
  | canceled =>
    dsimp only
    rw [fillsOf_nil, held_without]
    split <;> omega
  | refused =>
    simp only [fillsOf_cons, fillOf_reject, fillsOf_nil]
    omega
  | rested type =>
    have whole := within type
    simp only [held_append, held_of, crossed_id]
    omega
  | turnedAway type =>
    have whole := within type
    simp only [fillsOf_append, fillsOf_cons, fillOf_reject, fillsOf_nil]
    omega
  | discarded type =>
    have whole := within type
    dsimp only
    omega

theorem submit_live {x : OrderId} (alive : live (submit slabSize room book o).book x = true) :
    live book x = true ∧ ¬(o.type = OrderType.CANCEL ∧ o.id = x) ∨ o.id = x ∧ o.type = OrderType.LIMIT := by
  have crossed : o.type ≠ OrderType.CANCEL → live (cross book.length book o).book x = true →
      live book x = true ∧ ¬(o.type = OrderType.CANCEL ∧ o.id = x) := fun type before =>
    ⟨cross_live _ _ _ before, fun both => type both.1⟩
  have outcome := submit_outcome slabSize room book o
  generalize submit slabSize room book o = answer at outcome alive
  cases outcome with
  | canceled =>
    rcases List.any_eq_true.mp alive with ⟨r, member, same⟩
    rw [without, List.mem_filter, decide_eq_true_eq] at member
    refine .inl ⟨List.any_eq_true.mpr ⟨r, member.1, same⟩, ?_⟩
    rintro ⟨-, named⟩
    exact member.2 ((beq_iff_eq.mp same).trans named.symm)
  | refused type => exact .inl ⟨alive, fun both => type both.1⟩
  | rested type residual =>
    rcases List.any_eq_true.mp alive with ⟨r, member, same⟩
    rcases List.mem_append.mp member with old | new
    · exact .inl (crossed type (List.any_eq_true.mpr ⟨r, old, same⟩))
    · rw [List.mem_singleton.mp new] at same
      exact .inr ⟨(crossed_id book o).symm.trans (beq_iff_eq.mp same), residual.2⟩
  | turnedAway type | discarded type => exact .inl (crossed type alive)

/-- The feed of one `submit`: fills of the order, and at most a rejection behind them, after
    which the order does not rest. -/
theorem submit_feed (slabSize : Nat) (room : Bool) (book : Book) (o : Order) :
    (∀ event ∈ (submit slabSize room book o).events, event.takerId = o.id ∧ o.type ≠ OrderType.CANCEL ∧
        (event.status = TRADE_STATUS_FILL ∨ event.status = TRADE_STATUS_REJECTED)) ∧
      ((submit slabSize room book o).events.Pairwise fun event _ => event.status = TRADE_STATUS_FILL) ∧
      ∀ event ∈ (submit slabSize room book o).events, event.status ≠ TRADE_STATUS_FILL → live book o.id = false →
        live (submit slabSize room book o).book o.id = false := by
  have names := cross_names book.length book o
  have fills : o.type ≠ OrderType.CANCEL → ∀ event ∈ (cross book.length book o).events, event.takerId = o.id ∧
      o.type ≠ OrderType.CANCEL ∧ (event.status = TRADE_STATUS_FILL ∨ event.status = TRADE_STATUS_REJECTED) :=
    fun type event member => ⟨(names event member).1, type, .inl (names event member).2⟩
  have orderly : (cross book.length book o).events.Pairwise fun event _ => event.status = TRADE_STATUS_FILL :=
    List.pairwise_of_forall_mem_list fun event member _ _ => (names event member).2
  have outcome := submit_outcome slabSize room book o
  generalize submit slabSize room book o = answer at outcome
  cases outcome with
  | canceled =>
    refine ⟨?_, List.Pairwise.nil, ?_⟩
    · intro event member
      cases member
    · intro event member
      cases member
  | refused type =>
    refine ⟨?_, List.pairwise_singleton .., fun _ _ _ dead => dead⟩
    intro event member
    rw [List.mem_singleton.mp member]
    exact ⟨rfl, type, .inr rfl⟩
  | rested type | discarded type =>
    refine ⟨fills type, orderly, ?_⟩
    intro event member bad
    exact absurd (names event member).2 bad
  | turnedAway type =>
    refine ⟨?_, ?_, ?_⟩
    · intro event member
      rcases List.mem_append.mp member with fill | reject
      · exact fills type event fill
      · rw [List.mem_singleton.mp reject]
        exact ⟨crossed_id book o, type, .inr rfl⟩
    · rw [List.pairwise_append]
      exact ⟨orderly, List.pairwise_singleton .., fun event member _ _ => (names event member).2⟩
    · intro _ _ _ dead
      by_contra alive
      rw [Bool.not_eq_false] at alive
      rw [cross_live _ _ _ alive] at dead
      cases dead

end PriceTime

/-- An engine whose orders all had ids of their own: what it executed, and what its feed says. -/
structure Traded (b : OrderBook) (cap : Nat) (done : List Order) (events : List TradeEvent) (book : PriceTime.Book)
    (ladders : Half → Ladder) : Prop where
  refines : OrderBook.Refines b cap book ladders
  within : ∀ o ∈ done, o.type ≠ OrderType.CANCEL → fillsOf o.id events + PriceTime.held book o.id ≤ o.remaining.toNat
  unseen : ∀ id, (∀ o ∈ done, o.type ≠ OrderType.CANCEL → o.id ≠ id) → PriceTime.live book id = false ∧ fillsOf id events = 0
  rejected : ∀ event ∈ events, event.status ≠ TRADE_STATUS_FILL →
    PriceTime.live book event.takerId = false ∧ ∃ o ∈ done, o.type ≠ OrderType.CANCEL ∧ o.id = event.takerId
  orderly : events.Pairwise fun event later => event.status ≠ TRADE_STATUS_FILL → later.fillOf event.takerId = 0
  statuses : ∀ event ∈ events, event.status = TRADE_STATUS_FILL ∨ event.status = TRADE_STATUS_REJECTED

namespace Traded

open OrderBook

variable {b b' : OrderBook} {cap : Nat} {done : List Order} {events later : List TradeEvent} {book : PriceTime.Book}
  {ladders : Half → Ladder} {result : MatchResult} {o : Order}

theorem create {maxNodes : Nat} (small : maxNodes * PinNode.CAPACITY < 2 ^ 32) (idCapacity levelCapacity : Nat) :
    Traded (OrderBook.create maxNodes idCapacity levelCapacity) (levelCapacity % 2 ^ 32) [] [] [] fun _ => [] := by
  refine ⟨⟨create_settled small idCapacity levelCapacity, fun _ _ => rfl, List.nodup_nil, ?_⟩, ?_, ?_, ?_, List.Pairwise.nil, ?_⟩
  · intro r member
    cases member
  · intro o member
    cases member
  · intro id _
    exact ⟨rfl, rfl⟩
  · intro event member
    cases member
  · intro event member
    cases member

theorem fillOf_dead (slabSize : Nat) (room : Bool) (distinct : (book.map Resting.id).Nodup) {id : OrderId}
    (dead : PriceTime.live book id = false) (apart : ¬(o.id = id ∧ o.type ≠ OrderType.CANCEL)) :
    fillsOf id (PriceTime.submit slabSize room book o).events = 0 := by
  have within := PriceTime.submit_within slabSize room distinct o id
  rw [PriceTime.held_dead dead, if_neg apart] at within
  omega

theorem fillOf_eq_zero {id : OrderId} {event : TradeEvent} (none : fillsOf id events = 0) (member : event ∈ events) :
    event.fillOf id = 0 := by
  rcases List.append_of_mem member with ⟨before, after, rfl⟩
  rw [fillsOf_append, fillsOf_cons] at none
  omega

theorem live_dead {book' : PriceTime.Book} {id : OrderId} (dead : PriceTime.live book id = false)
    (apart : ¬(o.id = id ∧ o.type ≠ OrderType.CANCEL))
    (lives : PriceTime.live book' id = true →
      PriceTime.live book id = true ∧ ¬(o.type = OrderType.CANCEL ∧ o.id = id) ∨ o.id = id ∧ o.type = OrderType.LIMIT) :
    PriceTime.live book' id = false := by
  by_contra alive
  rw [Bool.not_eq_false] at alive
  rcases lives alive with ⟨before, -⟩ | ⟨same, limit⟩
  · rw [dead] at before
    cases before
  · exact apart ⟨same, limit_not_cancel limit⟩

theorem execute (traded : Traded b cap done events book ladders)
    (fresh : o.type ≠ OrderType.CANCEL → ∀ d ∈ done, d.type ≠ OrderType.CANCEL → d.id ≠ o.id)
    (call : Matcher.submit b o = some (b', later, result)) :
    ∃ book' ladders', Traded b' cap (done ++ [o]) (events ++ later) book' ladders' ∧
      ∀ id, PriceTime.live book' id = true →
        PriceTime.live book id = true ∧ ¬(o.type = OrderType.CANCEL ∧ o.id = id) ∨ o.id = id ∧ o.type = OrderType.LIMIT := by
  rcases Matcher.submit_step traded.refines o with ⟨b₁, ladders', answer, eq, again, -, refines⟩
  rw [call] at again
  cases again
  have distinct := traded.refines.sim.ids
  have within := PriceTime.submit_within b.slabSize (Matcher.roomAfterCross b o) distinct o
  have feed := PriceTime.submit_feed b.slabSize (Matcher.roomAfterCross b o) book o
  have lives : ∀ id, PriceTime.live answer.book id = true →
      PriceTime.live book id = true ∧ ¬(o.type = OrderType.CANCEL ∧ o.id = id) ∨ o.id = id ∧ o.type = OrderType.LIMIT := by
    rw [← eq]
    intro id alive
    exact PriceTime.submit_live alive
  have silent : ∀ id, PriceTime.live book id = false → ¬(o.id = id ∧ o.type ≠ OrderType.CANCEL) → fillsOf id answer.events = 0 := by
    rw [← eq]
    intro id
    exact fillOf_dead _ _ distinct
  rw [eq] at within feed
  rcases feed with ⟨named, orderly, rejected⟩
  refine ⟨answer.book, ladders', ⟨refines, ?_, ?_, ?_, ?_, ?_⟩, lives⟩
  · intro d member type
    have moved := within d.id
    rw [fillsOf_append]
    rcases List.mem_append.mp member with old | new
    · have before := traded.within d old type
      rw [if_neg fun both => fresh both.2 d old type both.1.symm] at moved
      omega
    · rw [List.mem_singleton.mp new] at moved type ⊢
      have before := traded.unseen o.id fun d member kind => fresh type d member kind
      rw [if_pos ⟨rfl, type⟩, PriceTime.held_dead before.1] at moved
      omega
  · intro id absent
    have before := traded.unseen id fun d member => absent d (List.mem_append_left _ member)
    have apart : ¬(o.id = id ∧ o.type ≠ OrderType.CANCEL) := fun both =>
      absent o (List.mem_append_right _ List.mem_cons_self) both.2 both.1
    constructor
    · exact live_dead before.1 apart (lives id)
    · rw [fillsOf_append, before.2, silent id before.1 apart]
  · intro event member bad
    rcases List.mem_append.mp member with old | new
    · rcases traded.rejected event old bad with ⟨dead, d, held, type, same⟩
      have apart : ¬(o.id = event.takerId ∧ o.type ≠ OrderType.CANCEL) := fun both =>
        fresh both.2 d held type (same.trans both.1.symm)
      exact ⟨live_dead dead apart (lives _), d, List.mem_append_left _ held, type, same⟩
    · rcases named event new with ⟨taker, type, -⟩
      rw [taker]
      have dead := (traded.unseen o.id fun d held kind => fresh type d held kind).1
      exact ⟨rejected event new bad dead, o, List.mem_append_right _ List.mem_cons_self, type, rfl⟩
  · rw [List.pairwise_append]
    refine ⟨traded.orderly, orderly.imp fun fill bad => absurd fill bad, ?_⟩
    intro event old next new bad
    rcases traded.rejected event old bad with ⟨dead, d, held, type, same⟩
    have none := silent event.takerId dead fun both => fresh both.2 d held type (same.trans both.1.symm)
    exact fillOf_eq_zero none new
  · intro event member
    rcases List.mem_append.mp member with old | new
    · exact traded.statuses event old
    · exact (named event new).2.2

end Traded

end Titan
