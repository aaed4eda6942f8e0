import Titan.Book.Refinement

namespace Titan

open RedBlack Linked PinNode

def fillTotal (events : List TradeEvent) : Nat :=
  ((events.filter fun event => decide (event.status = TRADE_STATUS_FILL)).map fun event => event.quantity.toNat).sum

def makerFills (id : OrderId) (events : List TradeEvent) : Nat :=
  fillTotal (events.filter fun event => decide (event.makerId = id))

@[simp] theorem fillTotal_nil : fillTotal [] = 0 := rfl

theorem fillTotal_append (events later : List TradeEvent) : fillTotal (events ++ later) = fillTotal events + fillTotal later := by
  simp [fillTotal]

theorem makerFills_append (id : OrderId) (events later : List TradeEvent) :
    makerFills id (events ++ later) = makerFills id events + makerFills id later := by
  rw [makerFills, List.filter_append, fillTotal_append]
  rfl

namespace PriceTime

variable {book : Book} {r : Resting} {id : OrderId} {taker o : Order}

def total (book : Book) : Nat := (book.map fun r => r.remaining.toNat).sum

theorem total_append (book later : Book) : total (book ++ later) = total book + total later := by
  simp [total]

theorem fillTotal_fill (taker : Order) (maker : Resting) (qty : Qty) (events : List TradeEvent) :
    fillTotal (fillEvent taker maker qty :: events) = qty.toNat + fillTotal events := by
  simp [fillTotal, fillEvent]

theorem makerFills_fill (taker : Order) (maker : Resting) (qty : Qty) (events : List TradeEvent) :
    makerFills id (fillEvent taker maker qty :: events) = (if maker.id = id then qty.toNat else 0) + makerFills id events := by
  have named : (fillEvent taker maker qty).makerId = maker.id := rfl
  by_cases hit : maker.id = id
  · rw [if_pos hit, makerFills, List.filter_cons_of_pos (by rw [named]; exact decide_eq_true hit), fillTotal_fill]
    rfl
  · rw [if_neg hit, makerFills, List.filter_cons_of_neg (by rw [named]; exact fun same => hit (of_decide_eq_true same)),
      Nat.zero_add]
    rfl

theorem makerFills_reject (id : OrderId) (taker : Order) : makerFills id [rejectEvent taker] = 0 := by
  rw [makerFills, List.filter_singleton]
  cases decide ((rejectEvent taker).makerId = id) <;> rfl

theorem fillTotal_reject (taker : Order) : fillTotal [rejectEvent taker] = 0 := rfl

theorem reduce_dead (dead : ∀ s ∈ book, s.id ≠ id) (left : Qty) : reduce book id left = book := by
  rw [reduce, List.map_congr_left fun s member => if_neg (dead s member)]
  exact List.map_id' book

theorem without_head {rest : Book} (distinct : ((r :: rest).map Resting.id).Nodup) : without (r :: rest) r.id = rest := by
  rw [List.map_cons, List.nodup_cons] at distinct
  have dead : ∀ s ∈ rest, s.id ≠ r.id := fun s inside same => distinct.1 (List.mem_map.mpr ⟨s, inside, same⟩)
  rw [without, List.filter_cons_of_neg (by simp), ← without, without_dead dead]

theorem reduce_head {rest : Book} (distinct : ((r :: rest).map Resting.id).Nodup) (left : Qty) :
    reduce (r :: rest) r.id left = { r with remaining := left } :: rest := by
  rw [List.map_cons, List.nodup_cons] at distinct
  have dead : ∀ s ∈ rest, s.id ≠ r.id := fun s inside same => distinct.1 (List.mem_map.mpr ⟨s, inside, same⟩)
  rw [reduce, List.map_cons, if_pos rfl, ← reduce, reduce_dead dead]

theorem total_cons (r : Resting) (book : Book) : total (r :: book) = r.remaining.toNat + total book := rfl

theorem total_without (distinct : (book.map Resting.id).Nodup) (member : r ∈ book) :
    total book = r.remaining.toNat + total (without book r.id) := by
  induction book with
  | nil => cases member
  | cons s rest ih =>
    rcases List.mem_cons.mp member with rfl | later
    · rw [without_head distinct, total_cons]
    · rw [List.map_cons, List.nodup_cons] at distinct
      have apart : s.id ≠ r.id := fun same => distinct.1 (List.mem_map.mpr ⟨r, later, same.symm⟩)
      rw [without, List.filter_cons_of_pos (by simpa using apart), ← without, total_cons, total_cons, ih distinct.2 later]
      omega

theorem total_reduce (distinct : (book.map Resting.id).Nodup) (member : r ∈ book) (left : Qty) :
    total book + left.toNat = r.remaining.toNat + total (reduce book r.id left) := by
  induction book with
  | nil => cases member
  | cons s rest ih =>
    rcases List.mem_cons.mp member with rfl | later
    · rw [reduce_head distinct, total_cons, total_cons]
      dsimp only
      omega
    · rw [List.map_cons, List.nodup_cons] at distinct
      have apart : s.id ≠ r.id := fun same => distinct.1 (List.mem_map.mpr ⟨r, later, same.symm⟩)
      have tail := ih distinct.2 later
      rw [reduce, List.map_cons, if_neg apart, ← reduce, total_cons, total_cons]
      omega

theorem min_qty (taker : Order) (maker : Resting) {qty : Qty}
    (eq : qty = if maker.remaining ≤ taker.remaining then maker.remaining else taker.remaining) :
    taker.remaining.toNat = (taker.remaining - qty).toNat + qty.toNat ∧
      maker.remaining.toNat = (maker.remaining - qty).toNat + qty.toNat := by
  have low : qty ≤ taker.remaining ∧ qty ≤ maker.remaining := by
    subst eq
    simp only [UInt32.le_iff_toNat_le]
    split
    · rename_i short
      exact ⟨short, Nat.le_refl _⟩
    · rename_i long
      exact ⟨Nat.le_refl _, Nat.le_of_not_le long⟩
  rw [UInt32.toNat_sub_of_le _ _ low.1, UInt32.toNat_sub_of_le _ _ low.2]
  rw [UInt32.le_iff_toNat_le, UInt32.le_iff_toNat_le] at low
  omega

def filled (book : Book) (maker : Resting) (qty : Qty) : Book :=
  if qty = maker.remaining then without book maker.id else reduce book maker.id (maker.remaining - qty)

theorem cross_succ (rounds : Nat) (book : Book) (taker : Order) :
    cross (rounds + 1) book taker = { book := book, taker := taker, events := [] } ∨
      ∃ maker ∈ book, ∃ qty : Qty, taker.remaining.toNat = (taker.remaining - qty).toNat + qty.toNat ∧
        maker.remaining.toNat = (maker.remaining - qty).toNat + qty.toNat ∧
        cross (rounds + 1) book taker =
          let later := cross rounds (filled book maker qty) (taker.withRemaining (taker.remaining - qty))
          { later with events := fillEvent taker maker qty :: later.events } := by
  rw [cross]
  split
  · exact .inl rfl
  · split
    · exact .inl rfl
    · rename_i maker found
      split
      · have fits := min_qty taker maker rfl
        exact .inr ⟨maker, (best_mem found).1, _, fits.1, fits.2, rfl⟩
      · exact .inl rfl

theorem filled_ids (distinct : (book.map Resting.id).Nodup) (maker : Resting) (qty : Qty) :
    ((filled book maker qty).map Resting.id).Nodup := by
  rw [filled]
  split
  · exact nodup_without distinct _
  · rw [reduce_ids]
    exact distinct

theorem total_filled (distinct : (book.map Resting.id).Nodup) {maker : Resting} (member : maker ∈ book) {qty : Qty}
    (low : maker.remaining.toNat = (maker.remaining - qty).toNat + qty.toNat) :
    total book = total (filled book maker qty) + qty.toNat := by
  rw [filled]
  split
  · rename_i whole
    rw [total_without distinct member, whole]
    omega
  · have sum := total_reduce distinct member (maker.remaining - qty)
    omega

/-- Crossing moves quantity from the book and the taker into the feed, and nothing else. -/
theorem cross_total (rounds : Nat) (distinct : (book.map Resting.id).Nodup) (taker : Order) :
    total book = total (cross rounds book taker).book + fillTotal (cross rounds book taker).events ∧
      taker.remaining.toNat = (cross rounds book taker).taker.remaining.toNat + fillTotal (cross rounds book taker).events := by
  induction rounds generalizing book taker with
  | zero => exact ⟨rfl, rfl⟩
  | succ rounds ih =>
    rcases cross_succ rounds book taker with idle | ⟨maker, member, qty, took, gave, eq⟩
    · rw [idle]
      exact ⟨rfl, rfl⟩
    · have later := ih (filled_ids distinct maker qty) (taker.withRemaining (taker.remaining - qty))
      have moved := total_filled distinct member gave
      rw [Order.withRemaining_remaining] at later
      rw [eq]
      simp only [fillTotal_fill]
      omega

theorem cross_ids (rounds : Nat) (book : Book) (taker : Order) :
    ∀ r ∈ (cross rounds book taker).book, ∃ s ∈ book, s.id = r.id := by
  induction rounds generalizing book taker with
  | zero =>
    intro r member
    exact ⟨r, member, rfl⟩
  | succ rounds ih =>
    rcases cross_succ rounds book taker with idle | ⟨maker, -, qty, -, -, eq⟩
    · rw [idle]
      intro r member
      exact ⟨r, member, rfl⟩
    · rw [eq]
      intro r member
      rcases ih _ _ r member with ⟨s, held, same⟩
      have known : s.id ∈ (filled book maker qty).map Resting.id := List.mem_map.mpr ⟨s, held, rfl⟩
      have inside : s.id ∈ book.map Resting.id := by
        rw [filled] at known
        split at known
        · exact (List.filter_sublist.map _).subset known
        · rwa [reduce_ids] at known
      rcases List.mem_map.mp inside with ⟨t, found, eq'⟩
      exact ⟨t, found, eq'.trans same⟩

theorem cross_dead (rounds : Nat) (taker : Order) (dead : ∀ r ∈ book, r.id ≠ id) :
    makerFills id (cross rounds book taker).events = 0 := by
  induction rounds generalizing book taker with
  | zero => rfl
  | succ rounds ih =>
    rcases cross_succ rounds book taker with idle | ⟨maker, member, qty, -, -, eq⟩
    · rw [idle]
      rfl
    · have still : ∀ r ∈ filled book maker qty, r.id ≠ id := by
        intro r held
        rw [filled] at held
        split at held
        · exact dead r (List.mem_of_mem_filter held)
        · rcases List.mem_map.mp held with ⟨s, inside, rfl⟩
          split
          · exact dead s inside
          · exact dead s inside
      rw [eq, makerFills_fill, if_neg (dead maker member), ih _ still]

theorem cross_maker (rounds : Nat) (distinct : (book.map Resting.id).Nodup) (taker : Order) (member : r ∈ book)
    (some : r.remaining ≠ 0) :
    (makerFills r.id (cross rounds book taker).events = r.remaining.toNat ∧
        ∀ s ∈ (cross rounds book taker).book, s.id ≠ r.id) ∨
      ∃ left, left ≠ 0 ∧ { r with remaining := left } ∈ (cross rounds book taker).book ∧
        r.remaining.toNat = left.toNat + makerFills r.id (cross rounds book taker).events := by
  induction rounds generalizing book taker r with
  | zero => exact .inr ⟨r.remaining, some, member, rfl⟩
  | succ rounds ih =>
    rcases cross_succ rounds book taker with idle | ⟨maker, held, qty, -, gave, eq⟩
    · rw [idle]
      exact .inr ⟨r.remaining, some, member, rfl⟩
    · rw [eq]
      have distinct' := filled_ids distinct maker qty
      by_cases hit : maker.id = r.id
      · have same : maker = r := List.inj_on_of_nodup_map distinct held member hit
        subst same
        by_cases whole : qty = maker.remaining
        · have gone : ∀ s ∈ filled book maker qty, s.id ≠ maker.id := by
            intro s inside
            rw [filled, if_pos whole] at inside
            simpa using (List.mem_filter.mp inside).2
          left
          constructor
          · simp only [makerFills_fill, if_true, cross_dead rounds _ gone, Nat.add_zero]
            rw [whole]
          · intro s inside
            rcases cross_ids rounds _ _ s inside with ⟨t, found, same⟩
            rw [← same]
            exact gone t found
        · have less : maker.remaining - qty ≠ 0 := by
            intro none
            rw [UInt32.sub_eq_iff_eq_add, UInt32.zero_add] at none
            exact whole none.symm
          have kept : { maker with remaining := maker.remaining - qty } ∈ filled book maker qty := by
            rw [filled, if_neg whole, reduce, List.mem_map]
            exact ⟨maker, member, if_pos rfl⟩
          rcases ih distinct' (taker.withRemaining (taker.remaining - qty)) kept less with ⟨spent, gone⟩ | ⟨left, more, there, sum⟩
          · left
            refine ⟨?_, gone⟩
            simp only [makerFills_fill, if_true, spent]
            omega
          · right
            refine ⟨left, more, there, ?_⟩
            simp only [makerFills_fill, if_true]
            simp only at sum
            omega
      · have kept : r ∈ filled book maker qty := by
          rw [filled]
          split
          · exact List.mem_filter.mpr ⟨member, by simpa using Ne.symm hit⟩
          · exact List.mem_map.mpr ⟨r, member, if_neg (Ne.symm hit)⟩
        have later := ih distinct' (taker.withRemaining (taker.remaining - qty)) kept some
        simp only [makerFills_fill, if_neg hit, Nat.zero_add]
        exact later

def held (book : Book) (id : OrderId) : Nat := total (book.filter fun r => decide (r.id = id))

theorem held_eq (distinct : (book.map Resting.id).Nodup) (member : r ∈ book) : held book r.id = r.remaining.toNat := by
  have only : book.filter (fun s => decide (s.id = r.id)) = [r] := by
    have inside : r ∈ book.filter fun s => decide (s.id = r.id) := List.mem_filter.mpr ⟨member, decide_eq_true rfl⟩
    have once : (book.filter fun s => decide (s.id = r.id)).Nodup :=
      List.Nodup.of_map _ (distinct.sublist (List.filter_sublist.map _))
    apply List.perm_singleton.mp
    rw [List.perm_ext_iff_of_nodup once (List.nodup_singleton r)]
    intro s
    rw [List.mem_singleton]
    constructor
    · intro found
      rw [List.mem_filter, decide_eq_true_eq] at found
      exact List.inj_on_of_nodup_map distinct found.1 member found.2
    · intro same
      rw [same]
      exact inside
  rw [held, only]
  rfl

theorem held_dead (dead : live book id = false) : held book id = 0 := by
  have none : book.filter (fun r => decide (r.id = id)) = [] := by
    apply List.filter_eq_nil_iff.mpr
    intro r member same
    exact List.any_eq_false.mp dead r member (by simpa using same)
  rw [held, none]
  rfl

theorem total_split (book : Book) (id : OrderId) : total book = held book id + total (without book id) := by
  induction book with
  | nil => rfl
  | cons r rest ih =>
    rw [held, without] at *
    by_cases hit : r.id = id
    · rw [List.filter_cons_of_pos (by simp [hit]), List.filter_cons_of_neg (by simp [hit])]
      simp only [total, List.map_cons, List.sum_cons] at ih ⊢
      omega
    · rw [List.filter_cons_of_neg (by simp [hit]), List.filter_cons_of_pos (by simp [hit])]
      simp only [total, List.map_cons, List.sum_cons] at ih ⊢
      omega

theorem enqueue_cases (slabSize : Nat) (room : Bool) (book : Book) (o : Order) :
    (enqueue slabSize room book o = (book ++ [Resting.of o], true) ∧ live book o.id = false) ∨
      enqueue slabSize room book o = (book, false) := by
  rw [enqueue]
  split
  · rename_i free
    exact .inl ⟨rfl, free.2.1⟩
  · exact .inr rfl

theorem cross_taker (rounds : Nat) (book : Book) (taker : Order) :
    ∃ left, (cross rounds book taker).taker = taker.withRemaining left := by
  induction rounds generalizing book taker with
  | zero => exact ⟨taker.remaining, rfl⟩
  | succ rounds ih =>
    rcases cross_succ rounds book taker with idle | ⟨maker, -, qty, -, -, eq⟩
    · rw [idle]
      exact ⟨taker.remaining, rfl⟩
    · rw [eq]
      exact ih _ _

theorem crossed_id (book : Book) (o : Order) : (cross book.length book o).taker.id = o.id := by
  rcases cross_taker book.length book o with ⟨left, taker⟩
  rw [taker, Order.withRemaining_id]

/-- The ways in which a `submit` ends. -/
inductive Outcome (book : Book) (o : Order) : Answer → Prop
  | canceled (type : o.type = OrderType.CANCEL) :
      Outcome book o { book := without book o.id, events := [], result := { canceled := live book o.id } }
  | refused (type : o.type ≠ OrderType.CANCEL) :
      Outcome book o { book := book, events := [rejectEvent o], result := { residual := o.remaining, rejected := true } }
  | rested (type : o.type ≠ OrderType.CANCEL)
      (residual : (cross book.length book o).taker.remaining ≠ 0 ∧ o.type = OrderType.LIMIT)
      (fresh : live (cross book.length book o).book o.id = false) :
      Outcome book o
        { book := (cross book.length book o).book ++ [Resting.of (cross book.length book o).taker]
          events := (cross book.length book o).events
          result := { crossedResult book o with rested := true, rejected := false } }
  | turnedAway (type : o.type ≠ OrderType.CANCEL)
      (residual : (cross book.length book o).taker.remaining ≠ 0 ∧ o.type = OrderType.LIMIT) :
      Outcome book o
        { book := (cross book.length book o).book
          events := (cross book.length book o).events ++ [rejectEvent (cross book.length book o).taker]
          result := { crossedResult book o with rested := false, rejected := true } }
  | discarded (type : o.type ≠ OrderType.CANCEL) :
      Outcome book o
        { book := (cross book.length book o).book
          events := (cross book.length book o).events
          result := crossedResult book o }

theorem submit_outcome (slabSize : Nat) (room : Bool) (book : Book) (o : Order) :
    Outcome book o (submit slabSize room book o) := by
  by_cases type : o.type = OrderType.CANCEL
  · rw [submit_cancel type]
    exact .canceled type
  cases good : isAdmissible o with
  | false =>
    rw [submit_inadmissible type good]
    exact .refused type
  | true =>
    by_cases residual : (cross book.length book o).taker.remaining ≠ 0 ∧ o.type = OrderType.LIMIT
    · rw [submit_rests type good residual]
      rcases enqueue_cases slabSize room (cross book.length book o).book (cross book.length book o).taker with
        ⟨entered, fresh⟩ | entered
      · rw [crossed_id] at fresh
        simp only [entered, if_true, List.append_nil]
        exact .rested type residual fresh
      · simp only [entered, Bool.false_eq_true, if_false]
        exact .turnedAway type residual
    · rw [submit_discards type good residual]
      exact .discarded type

theorem submit_total (slabSize : Nat) (room : Bool) (distinct : (book.map Resting.id).Nodup) (o : Order) :
    total book + (if (submit slabSize room book o).result.rested = true then
        (submit slabSize room book o).result.residual.toNat else 0) =
      total (submit slabSize room book o).book + fillTotal (submit slabSize room book o).events +
        (if (submit slabSize room book o).result.canceled = true then held book o.id else 0) := by
  have crossed := (cross_total book.length distinct o).1
  have outcome := submit_outcome slabSize room book o
  generalize submit slabSize room book o = answer at outcome
  cases outcome with
  | canceled =>
    have parts := total_split book o.id
    cases alive : live book o.id with
    | true => simpa [Nat.add_comm] using parts
    | false =>
      rw [held_dead alive] at parts
      simpa using parts
  | refused => simp [fillTotal_reject]
  | rested =>
    have joined : total [Resting.of (cross book.length book o).taker] = (cross book.length book o).taker.remaining.toNat := rfl
    simp only [crossedResult, total_append, joined, if_true, Bool.false_eq_true, if_false, Nat.add_zero]
    omega
  | turnedAway =>
    simp only [crossedResult, fillTotal_append, fillTotal_reject, Bool.false_eq_true, if_false, Nat.add_zero]
    exact crossed
  | discarded => simpa [crossedResult] using crossed

theorem submit_filled (slabSize : Nat) (room : Bool) (distinct : (book.map Resting.id).Nodup) (type : o.type ≠ OrderType.CANCEL) :
    o.remaining.toNat = (submit slabSize room book o).result.filled.toNat +
        (submit slabSize room book o).result.residual.toNat ∧
      (submit slabSize room book o).result.filled.toNat = fillTotal (submit slabSize room book o).events := by
  have taken := (cross_total book.length distinct o).2
  have low : (cross book.length book o).taker.remaining ≤ o.remaining := by
    rw [UInt32.le_iff_toNat_le]
    omega
  have filled : (crossedResult book o).filled.toNat = fillTotal (cross book.length book o).events := by
    rw [crossedResult, UInt32.toNat_sub_of_le _ _ low]
    omega
  have parts : o.remaining.toNat = (crossedResult book o).filled.toNat + (crossedResult book o).residual.toNat := by
    rw [filled, show (crossedResult book o).residual = (cross book.length book o).taker.remaining from rfl]
    omega
  have outcome := submit_outcome slabSize room book o
  generalize submit slabSize room book o = answer at outcome
  cases outcome with
  | canceled cancel => exact absurd cancel type
  | refused => simp [fillTotal_reject]
  | rested | discarded => exact ⟨parts, filled⟩
  | turnedAway =>
    refine ⟨parts, filled.trans ?_⟩
    dsimp only
    rw [fillTotal_append, fillTotal_reject, Nat.add_zero]

/-- What becomes of a resting order in one `submit`. -/
inductive Fate (r : Resting) (o : Order) (answer : Answer) : Prop
  | canceled (named : o.id = r.id) (canceled : answer.result.canceled = true) (silent : answer.events = [])
  | filled (kept : answer.result.canceled = false ∨ o.id ≠ r.id) (all : makerFills r.id answer.events = r.remaining.toNat)
      (gone : live answer.book r.id = false ∨ answer.result.rested = true ∧ o.id = r.id)
  | resting (left : Qty) (some : left ≠ 0) (kept : answer.result.canceled = false ∨ o.id ≠ r.id)
      (stays : { r with remaining := left } ∈ answer.book) (new : ¬(answer.result.rested = true ∧ o.id = r.id))
      (sum : r.remaining.toNat = left.toNat + makerFills r.id answer.events)

theorem live_of_mem (member : r ∈ book) : live book r.id = true := List.any_eq_true.mpr ⟨r, member, by simp⟩

theorem live_false_iff : live book id = false ↔ ∀ r ∈ book, r.id ≠ id := by
  simp [live]

theorem live_of_canceled {slabSize : Nat} {room : Bool} (canceled : (submit slabSize room book o).result.canceled = true) :
    live book o.id = true := by
  have outcome := submit_outcome slabSize room book o
  generalize submit slabSize room book o = answer at outcome canceled
  cases outcome with
  | canceled type => exact canceled
  | refused | rested | turnedAway | discarded => cases canceled

theorem submit_admits {slabSize : Nat} {room : Bool} (rested : (submit slabSize room book o).result.rested = true) :
    ∃ r ∈ (submit slabSize room book o).book, r.id = o.id ∧
      r.remaining = (submit slabSize room book o).result.residual := by
  have outcome := submit_outcome slabSize room book o
  generalize submit slabSize room book o = answer at outcome rested
  cases outcome with
  | canceled | refused | turnedAway | discarded => cases rested
  | rested type residual =>
    have last : Resting.of (cross book.length book o).taker ∈
        (cross book.length book o).book ++ [Resting.of (cross book.length book o).taker] :=
      List.mem_append_right _ List.mem_cons_self
    exact ⟨Resting.of (cross book.length book o).taker, last, crossed_id book o, rfl⟩

theorem submit_fate (slabSize : Nat) (room : Bool) (distinct : (book.map Resting.id).Nodup) (o : Order) (member : r ∈ book)
    (some : r.remaining ≠ 0) : Fate r o (submit slabSize room book o) := by
  have outcome := submit_outcome slabSize room book o
  have crossed := cross_maker book.length distinct o member some
  generalize submit slabSize room book o = answer at outcome
  cases outcome with
  | canceled =>
    by_cases named : o.id = r.id
    · refine .canceled named ?_ rfl
      rw [named]
      exact live_of_mem member
    · refine .resting r.remaining some (.inr named) ?_ ?_ rfl
      · exact List.mem_filter.mpr ⟨member, by simpa using Ne.symm named⟩
      · simp
  | refused =>
    refine .resting r.remaining some (.inl rfl) member ?_ ?_
    · simp
    · simp [makerFills_reject]
  | rested type residual fresh =>
    rcases crossed with ⟨all, gone⟩ | ⟨left, more, stays, sum⟩
    · by_cases named : o.id = r.id
      · exact .filled (.inl rfl) all (.inr ⟨rfl, named⟩)
      · refine .filled (.inl rfl) all (.inl ?_)
        rw [live_false_iff]
        intro s inside
        rcases List.mem_append.mp inside with old | new
        · exact gone s old
        · rw [List.mem_singleton.mp new]
          exact fun same => named ((crossed_id book o).symm.trans same)
    · refine .resting left more (.inl rfl) (List.mem_append_left _ stays) ?_ sum
      exact fun both => live_false_iff.mp fresh _ stays both.2.symm
  | turnedAway =>
    have fills : makerFills r.id ((cross book.length book o).events ++ [rejectEvent (cross book.length book o).taker]) =
        makerFills r.id (cross book.length book o).events := by
      rw [makerFills_append, makerFills_reject, Nat.add_zero]
    rcases crossed with ⟨all, gone⟩ | ⟨left, more, stays, sum⟩
    · exact .filled (.inl rfl) (fills.trans all) (.inl (live_false_iff.mpr gone))
    · exact .resting left more (.inl rfl) stays (by simp) (sum.trans (by rw [fills]))
  | discarded =>
    rcases crossed with ⟨all, gone⟩ | ⟨left, more, stays, sum⟩
    · exact .filled (.inl rfl) all (.inl (live_false_iff.mpr gone))
    · exact .resting left more (.inl rfl) stays (by simp [crossedResult]) sum

theorem submit_makerFills (slabSize : Nat) (room : Bool) (distinct : (book.map Resting.id).Nodup) (alive : ∀ r ∈ book, r.remaining ≠ 0)
    (o : Order) (id : OrderId) : makerFills id (submit slabSize room book o).events ≤ held book id := by
  by_cases there : ∃ r ∈ book, r.id = id
  · rcases there with ⟨r, member, rfl⟩
    have fate := submit_fate slabSize room distinct o member (alive r member)
    rw [held_eq distinct member]
    cases fate with
    | canceled named canceled silent =>
      rw [silent]
      exact Nat.zero_le _
    | filled kept all gone => exact Nat.le_of_eq all
    | resting left more kept stays new sum => omega
  · have dead : ∀ r ∈ book, r.id ≠ id := fun r member same => there ⟨r, member, same⟩
    have crossed := cross_dead book.length o dead
    have outcome := submit_outcome slabSize room book o
    have none : makerFills id (submit slabSize room book o).events = 0 := by
      generalize submit slabSize room book o = answer at outcome ⊢
      cases outcome with
      | canceled => rfl
      | refused => exact makerFills_reject id o
      | rested | discarded => exact crossed
      | turnedAway => rw [makerFills_append, makerFills_reject, crossed]
    rw [none]
    exact Nat.zero_le _

theorem Sim.drained {orders : Half → List Order} {h : Half} (makers : List Order) (sim : Sim book orders)
    (all : orders h = makers) :
    ∃ rest, Sim rest (Function.update orders h []) ∧ total book = quantity makers + total rest := by
  induction makers generalizing book orders with
  | nil =>
    refine ⟨book, ?_, (Nat.zero_add _).symm⟩
    rw [← all, Function.update_eq_self]
    exact sim
  | cons o later ih =>
    have split : orders h = [] ++ o :: later := all
    have member := (sim.of_mem (all ▸ List.mem_cons_self)).1
    rcases ih (sim.remove split) (Function.update_self ..) with ⟨rest, drained, sum⟩
    rw [Function.update_idem] at drained
    refine ⟨rest, drained, ?_⟩
    rw [total_without sim.ids member, quantity_cons, Nat.add_assoc, ← sum]
    rfl

theorem Sim.total_eq {orders : Half → List Order} (sim : Sim book orders) :
    total book = quantity (orders .bids) + quantity (orders .asks) := by
  rcases sim.drained (orders .bids) rfl with ⟨middle, asking, bids⟩
  rcases asking.drained (h := .asks) (orders .asks) (Function.update_of_ne (by decide) ..) with ⟨rest, none, asks⟩
  have empty : rest = [] := by
    apply List.eq_nil_iff_forall_not_mem.mpr
    intro r member
    rcases (none.mem_iff r).mp member with ⟨o, held, -⟩
    cases side : r.side with
    | bids =>
      rw [side, Function.update_of_ne (by decide), Function.update_self] at held
      cases held
    | asks =>
      rw [side, Function.update_self] at held
      cases held
  rw [bids, asks, empty]
  rfl

end PriceTime

namespace OrderBook

open PriceTime (total held)

variable {b b' : OrderBook} {cap : Nat} {ladders : Half → Ladder} {book : PriceTime.Book} {o : Order} {r : Resting}

def halfQty (b : OrderBook) (h : Half) : Nat := ((b.maps h).iterate.map fun i => (b.level h i).totalQty.toNat).sum

def bookQty (b : OrderBook) : Nat := b.halfQty .bids + b.halfQty .asks

/-- What is left of the order in the slot that the slab names. -/
def restingQty (b : OrderBook) (id : OrderId) : Nat :=
  (b.orderAt ((b.locators id.toNat).node, (b.locators id.toNat).slot)).remaining.toNat

theorem Settled.halfQty_eq (settled : Settled b cap ladders) (h : Half) : b.halfQty h = quantity (ladders h).orders := by
  rcases settled.rep with ⟨L, rep, rfl⟩
  have each : (L.tree h).inorder.map (fun i => (b.level h i).totalQty.toNat) =
      (L.tree h).inorder.map fun i => quantity ((L.chain h i).queue b.nodes) := by
    apply List.map_congr_left
    intro i member
    exact (rep.levels h i member).total_toNat (rep.focus member)
  rw [halfQty, rep.iterate_eq, each, Layout.ladder, Layout.rungs]
  generalize (L.tree h).inorder = cells
  induction cells with
  | nil => rfl
  | cons i rest ih =>
    rw [List.map_cons, List.sum_cons, ih, List.map_cons, Ladder.orders, Ladder.orders, List.flatMap_cons, quantity_append]

theorem Refines.bookQty_eq (refines : Refines b cap book ladders) : b.bookQty = total book := by
  rw [bookQty, refines.settled.halfQty_eq, refines.settled.halfQty_eq, refines.sim.total_eq]
  rfl

theorem Refines.restingQty_eq (refines : Refines b cap book ladders) (member : r ∈ book) :
    b.restingQty r.id = r.remaining.toNat := by
  rcases (refines.sim.mem_iff r).mp member with ⟨o, standing, -, rfl⟩
  rcases refines.settled.rep with ⟨L, rep, rfl⟩
  rcases mem_orders.mp standing with ⟨i, inside, spot, slot, rfl⟩
  have posted := (rep.stock.posted spot (mem_blocks_spots.mpr ⟨_, i, inside, slot⟩)).2
  rw [restingQty, show (Resting.of (b.orderAt spot)).id = (b.orderAt spot).id from rfl, posted]
  rfl

theorem Refines.held_eq (refines : Refines b cap book ladders) {id : OrderId} (live : PriceTime.live book id = true) :
    held book id = b.restingQty id := by
  rcases List.any_eq_true.mp live with ⟨r, member, same⟩
  rw [← (beq_iff_eq.mp same), refines.restingQty_eq member, PriceTime.held_eq refines.sim.ids member]

end OrderBook

/-- What the calls of `submit` put into the book and took out of it. -/
structure Ledger where
  rested : Nat := 0
  filled : Nat := 0
  canceled : Nat := 0
  deriving DecidableEq, Repr

def Ledger.record (ledger : Ledger) (b : OrderBook) (o : Order) (events : List TradeEvent) (result : MatchResult) : Ledger where
  rested := ledger.rested + if result.rested = true then result.residual.toNat else 0
  filled := ledger.filled + fillTotal events
  canceled := ledger.canceled + if result.canceled = true then b.restingQty o.id else 0

inductive Exit
  | resting
  | canceled
  | filled
  deriving DecidableEq, Repr

namespace Matcher

open OrderBook
open PriceTime (total)

variable {b b' : OrderBook} {cap : Nat} {ladders : Half → Ladder} {book : PriceTime.Book} {o : Order} {r : Resting}

def audit : List Order → OrderBook → Ledger → Option (OrderBook × Ledger)
  | [], b, ledger => some (b, ledger)
  | o :: rest, b, ledger => do
    let (b', events, result) ← submit b o
    audit rest b' (ledger.record b o events result)

/-- What is filled of the order that rests under `id`, and how it ends. Where `id` is live
    again at once, as a taker that rests, the earlier order was filled. -/
def follow (id : OrderId) : List Order → OrderBook → Option (Nat × Exit)
  | [], _ => some (0, .resting)
  | o :: rest, b => do
    let (b', events, result) ← submit b o
    if result.canceled = true ∧ o.id = id then some (makerFills id events, .canceled)
    else if (b'.locators id.toNat).node = INVALID_INDEX ∨ (result.rested = true ∧ o.id = id) then
      some (makerFills id events, .filled)
    else do
      let (later, exit) ← follow id rest b'
      some (makerFills id events + later, exit)

theorem submit_step (refines : Refines b cap book ladders) (o : Order) :
    ∃ b' ladders' answer, PriceTime.submit b.slabSize (roomAfterCross b o) book o = answer ∧
      submit b o = some (b', answer.events, answer.result) ∧ Kept b b' ∧ Refines b' cap answer.book ladders' := by
  rcases submit_spec refines.settled o with ⟨b', events, result, call, kept, outcome⟩
  rcases submit_refines_of refines outcome with ⟨rfl, rfl, ladders', refined⟩
  exact ⟨b', ladders', _, rfl, call, kept, refined⟩

theorem audit_spec (orders : List Order) (ledger : Ledger) (refines : Refines b cap book ladders)
    (balance : ledger.rested = ledger.filled + ledger.canceled + total book) :
    ∃ b' ledger' book' ladders', audit orders b ledger = some (b', ledger') ∧ Kept b b' ∧ Refines b' cap book' ladders' ∧
      ledger'.rested = ledger'.filled + ledger'.canceled + total book' := by
  induction orders generalizing b book ladders ledger with
  | nil => exact ⟨b, ledger, book, ladders, rfl, Kept.refl b, refines, balance⟩
  | cons o rest ih =>
    rcases submit_step refines o with ⟨b₁, ladders₁, answer, rfl, call, kept, refined⟩
    have moved := PriceTime.submit_total b.slabSize (roomAfterCross b o) refines.sim.ids o
    have next : (ledger.record b o (PriceTime.submit b.slabSize (roomAfterCross b o) book o).events
        (PriceTime.submit b.slabSize (roomAfterCross b o) book o).result).rested =
        (ledger.record b o (PriceTime.submit b.slabSize (roomAfterCross b o) book o).events
          (PriceTime.submit b.slabSize (roomAfterCross b o) book o).result).filled +
        (ledger.record b o (PriceTime.submit b.slabSize (roomAfterCross b o) book o).events
          (PriceTime.submit b.slabSize (roomAfterCross b o) book o).result).canceled +
        total (PriceTime.submit b.slabSize (roomAfterCross b o) book o).book := by
      have gone : (if (PriceTime.submit b.slabSize (roomAfterCross b o) book o).result.canceled = true then
          PriceTime.held book o.id else 0) =
          if (PriceTime.submit b.slabSize (roomAfterCross b o) book o).result.canceled = true then b.restingQty o.id else 0 := by
        split
        · rename_i canceled
          exact refines.held_eq (PriceTime.live_of_canceled canceled)
        · rfl
      rw [gone] at moved
      simp only [Ledger.record]
      omega
    rcases ih _ refined next with ⟨b', ledger', book', ladders', later, kept', refined', balanced⟩
    refine ⟨b', ledger', book', ladders', ?_, kept.trans kept', refined', balanced⟩
    rw [audit, call]
    exact later

theorem follow_spec (orders : List Order) (refines : Refines b cap book ladders) (member : r ∈ book) :
    ∃ total exit, follow r.id orders b = some (total, exit) ∧
      (exit = .filled ∧ total = r.remaining.toNat ∨ exit ≠ .filled ∧ total < r.remaining.toNat) := by
  have some := refines.sim.alive r member
  induction orders generalizing b book ladders r with
  | nil =>
    refine ⟨0, .resting, rfl, .inr ⟨by decide, ?_⟩⟩
    exact UInt32.pos_iff_ne_zero.mpr some
  | cons o rest ih =>
    rcases submit_step refines o with ⟨b₁, ladders₁, answer, eq, call, -, refined⟩
    have fate := PriceTime.submit_fate b.slabSize (roomAfterCross b o) refines.sim.ids o member some
    rw [eq] at fate
    rw [follow, call]
    simp only [Option.bind_eq_bind, Option.bind_some]
    have known := refined.shows.live r.id
    cases fate with
    | canceled named canceled silent =>
      rw [if_pos ⟨canceled, named⟩, silent]
      refine ⟨_, _, rfl, .inr ⟨by decide, ?_⟩⟩
      exact UInt32.pos_iff_ne_zero.mpr some
    | filled kept all gone =>
      have left : (b₁.locators r.id.toNat).node = INVALID_INDEX ∨ (answer.result.rested = true ∧ o.id = r.id) := by
        rcases gone with dead | again
        · left
          by_contra live
          rw [known.mp live] at dead
          cases dead
        · exact .inr again
      rw [if_neg (by rcases kept with no | no <;> simp [no]), if_pos left]
      exact ⟨_, _, rfl, .inl ⟨rfl, all⟩⟩
    | resting left more kept stays new sum =>
      have here : (b₁.locators r.id.toNat).node ≠ INVALID_INDEX := known.mpr (PriceTime.live_of_mem (r := { r with remaining := left }) stays)
      rw [if_neg (by rcases kept with no | no <;> simp [no]), if_neg (by simp only [here, false_or]; exact new)]
      rcases ih refined stays more with ⟨total, exit, later, outcome⟩
      rw [later]
      refine ⟨_, _, rfl, ?_⟩
      rcases outcome with ⟨exited, all⟩ | ⟨exited, less⟩
      · refine .inl ⟨exited, ?_⟩
        dsimp only at all
        omega
      · refine .inr ⟨exited, ?_⟩
        dsimp only at less
        omega

/-- The subtractions that matching makes stay above zero: no aggregate was ever short, the
    counters are exact, and whatever comes next, what is filled of an order is never more than it has. -/
structure Sound (b : OrderBook) : Prop where
  repairs : b.repairs = 0
  counters : ∃ cells chain, Consistent b cells chain
  fills : ∀ o b' events result, submit b o = some (b', events, result) → ∀ id, makerFills id events ≤ b.restingQty id
  splits : ∀ o b' events result, o.type ≠ OrderType.CANCEL → submit b o = some (b', events, result) →
    o.remaining.toNat = result.filled.toNat + result.residual.toNat ∧ result.filled.toNat = fillTotal events

theorem Sound.of_refines (refines : Refines b cap book ladders) (none : b.repairs = 0) : Sound b where
  repairs := none
  counters := refines.settled.consistent
  fills o b' events result call id := by
    rcases submit_step refines o with ⟨b₁, ladders₁, answer, rfl, again, -, -⟩
    rw [call] at again
    cases again
    have fits := PriceTime.submit_makerFills b.slabSize (roomAfterCross b o) refines.sim.ids refines.sim.alive o id
    cases live : PriceTime.live book id with
    | true => rwa [refines.held_eq live] at fits
    | false =>
      rw [PriceTime.held_dead live] at fits
      exact Nat.le_trans fits (Nat.zero_le _)
  splits o b' events result type call := by
    rcases submit_step refines o with ⟨b₁, ladders₁, answer, rfl, again, -, -⟩
    rw [call] at again
    cases again
    exact PriceTime.submit_filled b.slabSize (roomAfterCross b o) refines.sim.ids type

/-- In every run what came to rest is what was filled, what was canceled and what still
    rests. An order that comes to rest is then filled for at most what it rested with, and
    for all of it exactly when that is how it leaves. -/
theorem quantity_conserved {maxNodes : Nat} (small : maxNodes * CAPACITY < 2 ^ 32) (idCapacity levelCapacity : Nat)
    (orders : List Order) :
    ∃ b ledger, audit orders (create maxNodes idCapacity levelCapacity) {} = some (b, ledger) ∧
      ledger.rested = ledger.filled + ledger.canceled + b.bookQty ∧ Sound b ∧
      ∀ o, ∃ b' events result, submit b o = some (b', events, result) ∧
        (result.rested = true → ∀ later, ∃ total exit, follow o.id later b' = some (total, exit) ∧
          total ≤ result.residual.toNat ∧ (total = result.residual.toNat ↔ exit = .filled)) := by
  have start := create_refines small idCapacity levelCapacity
  rcases audit_spec orders {} start rfl with ⟨b, ledger, book, ladders, run, kept, refines, balance⟩
  refine ⟨b, ledger, run, ?_, Sound.of_refines refines kept.repairs, ?_⟩
  · rw [refines.bookQty_eq]
    exact balance
  · intro o
    rcases submit_step refines o with ⟨b', ladders', answer, rfl, call, -, refined⟩
    refine ⟨b', _, _, call, ?_⟩
    intro rested later
    rcases PriceTime.submit_admits rested with ⟨r, member, named, residual⟩
    rcases follow_spec later refined member with ⟨total, exit, followed, outcome⟩
    rw [named] at followed
    rw [residual] at outcome
    refine ⟨total, exit, followed, ?_⟩
    rcases outcome with ⟨exited, all⟩ | ⟨exited, less⟩
    · exact ⟨Nat.le_of_eq all, iff_of_true all exited⟩
    · exact ⟨Nat.le_of_lt less, iff_of_false (Nat.ne_of_lt less) exited⟩

def canceledRest : List Order :=
  [sellTen, buyFour, { id := 1, seq := 2, price := 0, quantity := 0, remaining := 0, side := 0, type := 3 }]

theorem quantity_conserved_canceled : ∃ b ledger, audit canceledRest (create 1 4 4) {} = some (b, ledger) ∧
    ledger = { rested := 10, filled := 4, canceled := 6 } ∧ ledger.rested = ledger.filled + ledger.canceled + b.bookQty := by
  have small : 1 * CAPACITY < 2 ^ 32 := by decide
  rcases quantity_conserved small 4 4 canceledRest with ⟨b, ledger, run, balance, -⟩
  have entries : (audit canceledRest (create 1 4 4) {}).map Prod.snd = some { rested := 10, filled := 4, canceled := 6 } := by
    decide +kernel
  rw [run] at entries
  exact ⟨b, ledger, run, Option.some.inj entries, balance⟩

end Matcher

end Titan
