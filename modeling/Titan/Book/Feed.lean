import Titan.Book.Conservation

namespace Titan

open PinNode

namespace PriceTime

variable {book : Book} {o : Order}

theorem cross_feedSeq (rounds : Nat) (book : Book) (taker : Order) :
    ∀ event ∈ (cross rounds book taker).events, event.feedSeq = taker.seq := by
  induction rounds generalizing book taker with
  | zero =>
    intro event member
    cases member
  | succ rounds ih =>
    rcases cross_succ rounds book taker with idle | ⟨maker, -, qty, -, -, eq⟩
    · rw [idle]
      intro event member
      cases member
    · rw [eq]
      intro event member
      rcases List.mem_cons.mp member with rfl | later
      · rfl
      · exact ih (filled book maker qty) (taker.withRemaining (taker.remaining - qty)) event later

theorem submit_feedSeq (slabSize : Nat) (room : Bool) (book : Book) (o : Order) :
    ∀ event ∈ (submit slabSize room book o).events, event.feedSeq = o.seq := by
  have fills := cross_feedSeq book.length book o
  have outcome := submit_outcome slabSize room book o
  generalize submit slabSize room book o = answer at outcome
  cases outcome with
  | canceled =>
    intro event member
    cases member
  | refused =>
    intro event member
    rw [List.mem_singleton.mp member]
    rfl
  | rested | discarded => exact fills
  | turnedAway =>
    intro event member
    rcases cross_taker book.length book o with ⟨left, taker⟩
    rcases List.mem_append.mp member with fill | reject
    · exact fills event fill
    · rw [List.mem_singleton.mp reject, taker]
      rfl

end PriceTime

namespace Matcher

open OrderBook

variable {b b' : OrderBook} {cap : Nat} {ladders : Half → Ladder} {book : PriceTime.Book} {events : List TradeEvent}

def submitAll : List Order → OrderBook → Option (OrderBook × List TradeEvent)
  | [], b => some (b, [])
  | o :: rest, b => do
    let (b, events, _) ← submit b o
    let (b, later) ← submitAll rest b
    some (b, events ++ later)

theorem submitAll_append {b₁ b₂ : OrderBook} {first second : List TradeEvent} (orders later : List Order)
    (before : submitAll orders b = some (b₁, first)) (after : submitAll later b₁ = some (b₂, second)) :
    submitAll (orders ++ later) b = some (b₂, first ++ second) := by
  induction orders generalizing b first with
  | nil =>
    cases before
    exact after
  | cons o rest ih =>
    simp only [submitAll, Option.bind_eq_bind, Option.bind_eq_some_iff, Option.some.injEq, Prod.mk.injEq] at before
    rcases before with ⟨answer, call, tail, looped, rfl, rfl⟩
    rw [List.cons_append, submitAll, call]
    simp only [Option.bind_eq_bind, Option.bind_some, ih looped, List.append_assoc]

theorem submitAll_spec (orders : List Order) (refines : Refines b cap book ladders) :
    ∃ b' events book' ladders', submitAll orders b = some (b', events) ∧ Kept b b' ∧ Refines b' cap book' ladders' ∧
      ∀ event ∈ events, ∃ o ∈ orders, event.feedSeq = o.seq := by
  induction orders generalizing b book ladders with
  | nil =>
    refine ⟨b, [], book, ladders, rfl, Kept.refl b, refines, ?_⟩
    intro event member
    cases member
  | cons o rest ih =>
    rcases submit_step refines o with ⟨b₁, ladders₁, answer, rfl, call, kept, refined⟩
    rcases ih refined with ⟨b', events, book', ladders', later, kept', refined', stamped⟩
    refine ⟨b', (PriceTime.submit b.slabSize (roomAfterCross b o) book o).events ++ events, book', ladders', ?_,
      kept.trans kept', refined', ?_⟩
    · rw [submitAll, call]
      simp only [Option.bind_eq_bind, Option.bind_some, later]
    · intro event member
      rcases List.mem_append.mp member with here | there
      · exact ⟨o, List.mem_cons_self, PriceTime.submit_feedSeq _ _ _ o event here⟩
      · rcases stamped event there with ⟨o', inside, same⟩
        exact ⟨o', List.mem_cons_of_mem _ inside, same⟩

theorem audit_submitAll (orders : List Order) (ledger : Ledger) (run : submitAll orders b = some (b', events)) :
    ∃ ledger', audit orders b ledger = some (b', ledger') ∧ ledger'.filled = ledger.filled + fillTotal events := by
  induction orders generalizing b events ledger with
  | nil =>
    cases run
    exact ⟨ledger, rfl, rfl⟩
  | cons o rest ih =>
    simp only [submitAll, Option.bind_eq_bind, Option.bind_eq_some_iff, Option.some.injEq, Prod.mk.injEq] at run
    rcases run with ⟨answer, call, tail, looped, rfl, rfl⟩
    rcases ih (ledger.record b o answer.2.1 answer.2.2) looped with ⟨ledger', audited, filled⟩
    refine ⟨ledger', ?_, ?_⟩
    · rw [audit, call]
      exact audited
    · rw [filled, fillTotal_append, Ledger.record, Nat.add_assoc]

def Numbered (orders : List Order) : Prop := ∀ (i : Nat) o, orders[i]? = some o → o.seq.toNat = i

theorem Numbered.increasing {orders : List Order} (numbered : Numbered orders) :
    orders.Pairwise fun o later => o.seq < later.seq := by
  rw [List.pairwise_iff_getElem]
  intro i j low high before
  rw [UInt64.lt_iff_toNat_lt, numbered i _ (List.getElem?_eq_getElem low), numbered j _ (List.getElem?_eq_getElem high)]
  exact before

end Matcher

end Titan
