import Titan.Book.Matcher

namespace Titan

/-- One half of a book: its prices, best first, each with its orders, oldest first. -/
abbrev Ladder := List (PriceTick × List Order)

open Matcher (fillQty)

namespace Ladder

/-- What a taker leaves behind: the makers that remain, itself, and the fills. -/
structure Sweep (α : Type) where
  left : α
  taker : Order
  events : List TradeEvent

def fill (takerBuy : Bool) (taker maker : Order) : Sweep (List Order) :=
  if maker.remaining = 0 then { left := [], taker := taker, events := [] }
  else
    let qty := fillQty taker maker
    let taker := taker.withRemaining (taker.remaining - qty)
    let maker := maker.withRemaining (maker.remaining - qty)
    { left := if maker.remaining = 0 then [] else [maker]
      taker := taker
      events := [Matcher.fillEvent maker taker takerBuy qty] }

def sweep (takerBuy : Bool) (taker : Order) : List Order → Sweep (List Order)
  | [] => { left := [], taker := taker, events := [] }
  | maker :: rest =>
    if taker.remaining = 0 then { left := maker :: rest, taker := taker, events := [] }
    else
      let filled := fill takerBuy taker maker
      if filled.left = [] then
        let later := sweep takerBuy filled.taker rest
        { later with events := filled.events ++ later.events }
      else { filled with left := filled.left ++ rest }

/-- Fill a taker from the best price outward. -/
def cross (takerBuy : Bool) (taker : Order) : Ladder → Sweep Ladder
  | [] => { left := [], taker := taker, events := [] }
  | (price, queue) :: rest =>
    if taker.remaining = 0 ∨ Matcher.crosses taker takerBuy price = false then
      { left := (price, queue) :: rest, taker := taker, events := [] }
    else
      let swept := sweep takerBuy taker queue
      if swept.left = [] then
        let later := cross takerBuy swept.taker rest
        { later with events := swept.events ++ later.events }
      else { left := (price, swept.left) :: rest, taker := swept.taker, events := swept.events }

def orders (ladder : Ladder) : List Order := ladder.flatMap Prod.snd

inductive Placed (price : PriceTick) (o : Order) : Ladder → Ladder → Prop
  | joined (l₁ : Ladder) (queue : List Order) (l₂ : Ladder) :
      Placed price o (l₁ ++ (price, queue) :: l₂) (l₁ ++ (price, queue ++ [o]) :: l₂)
  | opened (l₁ l₂ : Ladder) (absent : ∀ rung ∈ l₁ ++ l₂, rung.1 ≠ price) :
      Placed price o (l₁ ++ l₂) (l₁ ++ (price, [o]) :: l₂)

inductive Withdrawn (price : PriceTick) (o : Order) : Ladder → Ladder → Prop
  | kept (l₁ : Ladder) (q₁ q₂ : List Order) (l₂ : Ladder) (rest : q₁ ++ q₂ ≠ []) :
      Withdrawn price o (l₁ ++ (price, q₁ ++ o :: q₂) :: l₂) (l₁ ++ (price, q₁ ++ q₂) :: l₂)
  | closed (l₁ l₂ : Ladder) : Withdrawn price o (l₁ ++ (price, [o]) :: l₂) (l₁ ++ l₂)

theorem Placed.inhabited {price : PriceTick} {o : Order} {ladder ladder' : Ladder} (placed : Placed price o ladder ladder')
    (inhabited : ∀ rung ∈ ladder, rung.2 ≠ []) : ∀ rung ∈ ladder', rung.2 ≠ [] := by
  intro rung member
  cases placed with
  | joined l₁ queue l₂ =>
    rcases List.mem_append.mp member with early | late
    · exact inhabited rung (List.mem_append_left _ early)
    · rcases List.mem_cons.mp late with rfl | later
      · simp
      · exact inhabited rung (List.mem_append_right _ (List.mem_cons_of_mem _ later))
  | opened l₁ l₂ absent =>
    rcases List.mem_append.mp member with early | late
    · exact inhabited rung (List.mem_append_left _ early)
    · rcases List.mem_cons.mp late with rfl | later
      · simp
      · exact inhabited rung (List.mem_append_right _ later)

theorem Withdrawn.inhabited {price : PriceTick} {o : Order} {ladder ladder' : Ladder}
    (withdrawn : Withdrawn price o ladder ladder') (inhabited : ∀ rung ∈ ladder, rung.2 ≠ []) :
    ∀ rung ∈ ladder', rung.2 ≠ [] := by
  intro rung member
  cases withdrawn with
  | kept l₁ q₁ q₂ l₂ rest =>
    rcases List.mem_append.mp member with early | late
    · exact inhabited rung (List.mem_append_left _ early)
    · rcases List.mem_cons.mp late with rfl | later
      · exact rest
      · exact inhabited rung (List.mem_append_right _ (List.mem_cons_of_mem _ later))
  | closed l₁ l₂ =>
    rcases List.mem_append.mp member with early | late
    · exact inhabited rung (List.mem_append_left _ early)
    · exact inhabited rung (List.mem_append_right _ (List.mem_cons_of_mem _ late))

theorem sub_fillQty (taker maker : Order) :
    (maker.remaining - fillQty taker maker = 0 ∨ taker.remaining - fillQty taker maker = 0) ∧
      maker.remaining.toNat = (maker.remaining - fillQty taker maker).toNat + (fillQty taker maker).toNat ∧
      taker.remaining.toNat = (taker.remaining - fillQty taker maker).toNat + (fillQty taker maker).toNat := by
  have low : fillQty taker maker ≤ maker.remaining ∧ fillQty taker maker ≤ taker.remaining := by
    simp only [fillQty, UInt32.le_iff_toNat_le, UInt32.lt_iff_toNat_lt]
    split <;> omega
  refine ⟨?_, ?_, ?_⟩
  · by_cases short : taker.remaining < maker.remaining
    · right
      rw [fillQty, if_pos short, UInt32.sub_self]
    · left
      rw [fillQty, if_neg short, UInt32.sub_self]
  · rw [UInt32.toNat_sub_of_le _ _ low.1, Nat.sub_add_cancel (UInt32.le_iff_toNat_le.mp low.1)]
  · rw [UInt32.toNat_sub_of_le _ _ low.2, Nat.sub_add_cancel (UInt32.le_iff_toNat_le.mp low.2)]

theorem sweep_done {taker : Order} (takerBuy : Bool) (queue : List Order) (done : taker.remaining = 0) :
    sweep takerBuy taker queue = { left := queue, taker := taker, events := [] } := by
  cases queue with
  | nil => rfl
  | cons maker rest => rw [sweep, if_pos done]

theorem fill_full {taker maker : Order} (takerBuy : Bool) (some : maker.remaining ≠ 0)
    (full : maker.remaining - fillQty taker maker = 0) :
    fill takerBuy taker maker =
      { left := []
        taker := taker.withRemaining (taker.remaining - fillQty taker maker)
        events := [Matcher.fillEvent (maker.withRemaining (maker.remaining - fillQty taker maker))
          (taker.withRemaining (taker.remaining - fillQty taker maker)) takerBuy (fillQty taker maker)] } := by
  rw [fill, if_neg some]
  exact congrArg (Sweep.mk · _ _) (if_pos full)

theorem fill_part {taker maker : Order} (takerBuy : Bool) (some : maker.remaining ≠ 0)
    (left : maker.remaining - fillQty taker maker ≠ 0) :
    fill takerBuy taker maker =
      { left := [maker.withRemaining (maker.remaining - fillQty taker maker)]
        taker := taker.withRemaining (taker.remaining - fillQty taker maker)
        events := [Matcher.fillEvent (maker.withRemaining (maker.remaining - fillQty taker maker))
          (taker.withRemaining (taker.remaining - fillQty taker maker)) takerBuy (fillQty taker maker)] } := by
  rw [fill, if_neg some]
  exact congrArg (Sweep.mk · _ _) (if_neg left)

theorem fill_exhausts {takerBuy : Bool} {taker maker : Order} (left : (fill takerBuy taker maker).left ≠ []) :
    (fill takerBuy taker maker).taker.remaining = 0 := by
  by_cases empty : maker.remaining = 0
  · rw [fill, if_pos empty] at left
    exact absurd rfl left
  · by_cases full : maker.remaining - fillQty taker maker = 0
    · rw [fill_full takerBuy empty full] at left
      exact absurd rfl left
    · rw [fill_part takerBuy empty full]
      exact (sub_fillQty taker maker).1.resolve_left full

theorem sweep_cons {takerBuy : Bool} {taker maker : Order} (rest : List Order) (more : taker.remaining ≠ 0) :
    sweep takerBuy taker (maker :: rest) =
      let later := sweep takerBuy (fill takerBuy taker maker).taker ((fill takerBuy taker maker).left ++ rest)
      { later with events := (fill takerBuy taker maker).events ++ later.events } := by
  rw [sweep, if_neg more]
  by_cases gone : (fill takerBuy taker maker).left = []
  · simp only [gone, if_pos, List.nil_append]
  · simp only [gone, if_false, sweep_done takerBuy _ (fill_exhausts gone), List.append_nil]

theorem sweep_exhausts (takerBuy : Bool) (taker : Order) (queue : List Order)
    (left : (sweep takerBuy taker queue).left ≠ []) : (sweep takerBuy taker queue).taker.remaining = 0 := by
  induction queue generalizing taker with
  | nil => exact absurd rfl left
  | cons maker rest ih =>
    by_cases done : taker.remaining = 0
    · rw [sweep_done takerBuy _ done]
      exact done
    · rw [sweep, if_neg done] at left ⊢
      by_cases gone : (fill takerBuy taker maker).left = []
      · simp only [gone, if_pos] at left ⊢
        exact ih _ left
      · simp only [gone, if_false]
        exact fill_exhausts gone

theorem cross_done {taker : Order} (takerBuy : Bool) (ladder : Ladder) (done : taker.remaining = 0) :
    cross takerBuy taker ladder = { left := ladder, taker := taker, events := [] } := by
  cases ladder with
  | nil => rfl
  | cons rung rest => rw [cross, if_pos (.inl done)]

theorem fill_taker (takerBuy : Bool) (taker maker : Order) :
    ∃ r, (fill takerBuy taker maker).taker = taker.withRemaining r := by
  by_cases empty : maker.remaining = 0
  · exact ⟨taker.remaining, by rw [fill, if_pos empty]; rfl⟩
  · exact ⟨taker.remaining - fillQty taker maker, by rw [fill, if_neg empty]⟩

theorem sweep_taker (takerBuy : Bool) (taker : Order) (queue : List Order) :
    ∃ r, (sweep takerBuy taker queue).taker = taker.withRemaining r := by
  induction queue generalizing taker with
  | nil => exact ⟨taker.remaining, rfl⟩
  | cons maker rest ih =>
    by_cases done : taker.remaining = 0
    · exact ⟨taker.remaining, by rw [sweep_done takerBuy _ done]; rfl⟩
    · rcases fill_taker takerBuy taker maker with ⟨r, filled⟩
      rw [sweep, if_neg done]
      by_cases gone : (fill takerBuy taker maker).left = []
      · simp only [gone, if_pos]
        rw [filled]
        exact ih _
      · simp only [gone, if_false]
        exact ⟨r, filled⟩

theorem cross_taker (takerBuy : Bool) (taker : Order) (ladder : Ladder) :
    ∃ r, (cross takerBuy taker ladder).taker = taker.withRemaining r := by
  induction ladder generalizing taker with
  | nil => exact ⟨taker.remaining, rfl⟩
  | cons rung rest ih =>
    rw [cross]
    split
    · exact ⟨taker.remaining, rfl⟩
    · rcases sweep_taker takerBuy taker rung.2 with ⟨r, swept⟩
      by_cases gone : (sweep takerBuy taker rung.2).left = []
      · simp only [gone, if_pos]
        rw [swept]
        exact ih _
      · simp only [gone, if_false]
        exact ⟨r, swept⟩

end Ladder

end Titan
