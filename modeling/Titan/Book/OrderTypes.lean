import Titan.Book.Allocation

namespace Titan

open RedBlack Linked PinNode

namespace Ladder

open Matcher (crosses)
open Waterfall

variable {takerBuy : Bool} {taker maker : Order} {makers : List Order} {want more : Nat}

theorem keeps_cons (want : Nat) (maker : Order) (makers : List Order) :
    keeps want (maker :: makers) =
      (if maker.remaining.toNat ≤ want then [] else [maker.withRemaining (maker.remaining - UInt32.ofNat want)]) ++
        keeps (want - maker.remaining.toNat) makers := by
  rw [keeps, shares_cons]
  split
  · rename_i full
    rw [Nat.min_eq_left full, List.filter_cons_of_neg (by simp)]
    rfl
  · rename_i part
    rw [Nat.min_eq_right (by omega), List.filter_cons_of_pos (by simp; omega), List.map_cons]
    rfl

def gives (id : OrderId) (want : Nat) (makers : List Order) : Nat :=
  ((shares want makers).map fun share => if share.1.id = id then share.2 else 0).sum

theorem gives_cons (id : OrderId) (want : Nat) (maker : Order) (makers : List Order) :
    gives id want (maker :: makers) =
      (if maker.id = id then min maker.remaining.toNat want else 0) + gives id (want - maker.remaining.toNat) makers := by
  rw [gives, shares_cons, List.map_cons, List.sum_cons]
  rfl

theorem share_le {share : Order × Nat} (member : share ∈ shares want makers) : share.2 ≤ want := by
  induction makers generalizing want with
  | nil => cases member
  | cons maker rest ih =>
    rw [shares_cons] at member
    rcases List.mem_cons.mp member with rfl | later
    · exact Nat.min_le_right _ _
    · exact Nat.le_trans (ih later) (Nat.sub_le _ _)

theorem makerFills_fills (id : OrderId) (takerBuy : Bool) (taker : Order) (makers : List Order) :
    makerFills id (fills takerBuy taker makers) = gives id taker.remaining.toNat makers := by
  have bound : ∀ share ∈ shares taker.remaining.toNat makers, share.2 < 2 ^ 32 :=
    fun share member => Nat.lt_of_le_of_lt (share_le member) taker.remaining.toNat_lt
  rw [fills, gives]
  generalize shares taker.remaining.toNat makers = given at bound ⊢
  induction given with
  | nil => rfl
  | cons share rest ih =>
    have later := ih fun other member => bound other (List.mem_cons_of_mem _ member)
    have here : (UInt32.ofNat share.2).toNat = share.2 := by
      rw [UInt32.toNat_ofNat', Nat.mod_eq_of_lt (bound share List.mem_cons_self)]
    rw [List.map_cons, List.sum_cons, ← later]
    by_cases none : share.2 = 0
    · rw [List.filter_cons_of_neg (by simpa using none), none, ite_self, Nat.zero_add]
    · rw [List.filter_cons_of_pos (by simpa using none), List.map_cons]
      simp only [makerFills, fillTotal, List.filter_cons, Matcher.fillEvent]
      by_cases same : share.1.id = id
      · simp [same, here]
      · simp [same]

theorem gives_zero (id : OrderId) (makers : List Order) : gives id 0 makers = 0 := by
  induction makers with
  | nil => rfl
  | cons maker rest ih => rw [gives_cons, Nat.zero_sub, ih, Nat.min_zero, ite_self]

theorem cut_toNat {r : Qty} (part : want < r.toNat) : (r - UInt32.ofNat want).toNat = r.toNat - want := by
  have value : (UInt32.ofNat want).toNat = want := by
    rw [UInt32.toNat_ofNat', Nat.mod_eq_of_lt (Nat.lt_trans part r.toNat_lt)]
  rw [UInt32.toNat_sub_of_le _ _ (UInt32.le_iff_toNat_le.mpr (by omega)), value]

theorem cut_cut {r : Qty} (part : want + more < r.toNat) :
    r - UInt32.ofNat want - UInt32.ofNat more = r - UInt32.ofNat (want + more) := by
  apply UInt32.toNat_inj.mp
  rw [cut_toNat part, cut_toNat (by rw [cut_toNat (by omega)]; omega), cut_toNat (by omega)]
  omega

theorem keeps_keeps (some : ∀ maker ∈ makers, maker.remaining ≠ 0) : keeps more (keeps want makers) = keeps (want + more) makers := by
  induction makers generalizing want more with
  | nil => rfl
  | cons maker rest ih =>
    have later : ∀ maker ∈ rest, maker.remaining ≠ 0 := fun other member => some other (List.mem_cons_of_mem _ member)
    rw [keeps_cons, keeps_cons (want + more)]
    by_cases full : maker.remaining.toNat ≤ want
    · rw [if_pos full, if_pos (by omega), List.nil_append, List.nil_append, ih later]
      congr 1
      omega
    · have part : want < maker.remaining.toNat := Nat.not_le.mp full
      rw [if_neg full, Nat.sub_eq_zero_of_le (by omega), keeps_everything later, List.singleton_append, keeps_cons,
        Order.withRemaining_remaining, cut_toNat part]
      by_cases full' : maker.remaining.toNat ≤ want + more
      · rw [if_pos (by omega), if_pos full']
        congr 2
        omega
      · rw [if_neg (by omega), if_neg full', Nat.sub_eq_zero_of_le (by omega), Nat.sub_eq_zero_of_le (by omega),
          ← cut_cut (by omega)]
        rfl

theorem gives_add (id : OrderId) (some : ∀ maker ∈ makers, maker.remaining ≠ 0) :
    gives id want makers + gives id more (keeps want makers) = gives id (want + more) makers := by
  induction makers generalizing want more with
  | nil => rfl
  | cons maker rest ih =>
    have later : ∀ maker ∈ rest, maker.remaining ≠ 0 := fun other member => some other (List.mem_cons_of_mem _ member)
    rw [keeps_cons, gives_cons, gives_cons id (want + more)]
    by_cases full : maker.remaining.toNat ≤ want
    · rw [if_pos full, List.nil_append, Nat.min_eq_left full, Nat.min_eq_left (by omega), Nat.add_assoc, ih later]
      congr 2
      omega
    · have part : want < maker.remaining.toNat := Nat.not_le.mp full
      rw [if_neg full, Nat.sub_eq_zero_of_le (Nat.le_of_lt part), gives_zero, keeps_everything later, List.singleton_append,
        gives_cons, Order.withRemaining_remaining, Order.withRemaining_id, cut_toNat part,
        show more - (maker.remaining.toNat - want) = want + more - maker.remaining.toNat by omega]
      split <;> omega

theorem sizes_keeps (some : ∀ maker ∈ makers, maker.remaining ≠ 0) :
    (sizes (keeps want makers)).sum = (sizes makers).sum - want := by
  induction makers generalizing want with
  | nil => exact (Nat.zero_sub want).symm
  | cons maker rest ih =>
    have later : ∀ maker ∈ rest, maker.remaining ≠ 0 := fun other member => some other (List.mem_cons_of_mem _ member)
    rw [keeps_cons, sizes_cons]
    by_cases full : maker.remaining.toNat ≤ want
    · rw [if_pos full, List.nil_append, ih later]
      omega
    · have part : want < maker.remaining.toNat := Nat.not_le.mp full
      rw [if_neg full, Nat.sub_eq_zero_of_le (Nat.le_of_lt part), keeps_everything later, List.singleton_append, sizes_cons,
        Order.withRemaining_remaining, cut_toNat part]
      omega

theorem keeps_price (member : maker ∈ keeps want makers) : ∃ other ∈ makers, maker.price = other.price := by
  rcases List.mem_map.mp member with ⟨share, kept, rfl⟩
  exact ⟨share.1, (List.of_mem_zip (List.mem_filter.mp kept).1).1, rfl⟩

theorem marketable_crosses (member : maker ∈ marketable takerBuy taker makers) : crosses taker takerBuy maker.price = true := by
  induction makers with
  | nil => cases member
  | cons first rest ih =>
    cases meets : crosses taker takerBuy first.price with
    | true =>
      rw [marketable_cons meets] at member
      rcases List.mem_cons.mp member with rfl | later
      · exact meets
      · exact ih later
    | false =>
      rw [marketable_apart meets] at member
      cases member

theorem split_eq {met unmet : List Order} (meets : ∀ maker ∈ met, crosses taker takerBuy maker.price = true)
    (apart : ∀ maker ∈ unmet, crosses taker takerBuy maker.price = false) :
    marketable takerBuy taker (met ++ unmet) = met ∧ beyond takerBuy taker (met ++ unmet) = unmet := by
  induction met with
  | nil =>
    cases unmet with
    | nil => exact ⟨rfl, rfl⟩
    | cons maker rest =>
      have first := apart maker List.mem_cons_self
      exact ⟨marketable_apart first, beyond_apart first⟩
  | cons maker rest ih =>
    have first := meets maker List.mem_cons_self
    rcases ih fun other member => meets other (List.mem_cons_of_mem _ member) with ⟨front, back⟩
    rw [List.cons_append, marketable_cons first, beyond_cons first, front, back]
    exact ⟨rfl, rfl⟩

end Ladder

namespace Matcher

open OrderBook

variable {b : OrderBook} {o : Order} {maxNodes idCapacity levelCapacity : Nat}

/-- Two books in which the same orders wait, in the same places. -/
def Alike (b b' : OrderBook) : Prop := ∀ h, b.waiting h = b'.waiting h

theorem other_half (h : Half) (o : Order) (apart : h ≠ Half.ofSide o.side) : h = (Half.ofSide o.side).opposite := by
  cases h <;> cases half : Half.ofSide o.side <;> first | rfl | exact absurd half.symm apart

theorem Allotted.passed {b' : OrderBook} {events : List TradeEvent} {result : MatchResult} (allotted : Allotted b o b' events result)
    (type : o.type ≠ OrderType.LIMIT) : result.rested = false ∧ result.rejected = false := by
  have settles := allotted.settles
  cases rested : result.rested <;> cases rejected : result.rejected <;> simp_all

theorem Allotted.makerFills_eq {b' : OrderBook} {events : List TradeEvent} {result : MatchResult}
    (allotted : Allotted b o b' events result) (type : o.type ≠ OrderType.LIMIT) (id : OrderId) :
    makerFills id events = Ladder.gives id o.remaining.toNat (counterparties b o) := by
  have fills := allotted.fills
  rw [(allotted.passed type).2] at fills
  rw [fills, makerFills_append, Ladder.makerFills_fills]
  rfl

theorem reachable_waiting (small : maxNodes * CAPACITY < 2 ^ 32)
    (reach : Transition.Reachable (fun o b => Matcher.submit b o) (create maxNodes idCapacity levelCapacity) b) {h : Half}
    {maker : Order} (member : maker ∈ b.waiting h) :
    maker.type = OrderType.LIMIT ∧ maker.remaining ≠ 0 ∧ isValidPrice maker.price = true := by
  rcases reachable_clean small reach with ⟨book, ladders, refines, clean⟩
  rw [refines.settled.waiting_eq] at member
  exact clean.sound h maker member

/-- An order that takes what there is and leaves: the same as two orders of its parts, one after the other. -/
theorem submit_splits (small : maxNodes * CAPACITY < 2 ^ 32)
    (reach : Transition.Reachable (fun o b => Matcher.submit b o) (create maxNodes idCapacity levelCapacity) b) (o : Order)
    (cancel : o.type ≠ OrderType.CANCEL) (limit : o.type ≠ OrderType.LIMIT) (good : isAdmissible o = true) (first second : Qty)
    (fits : first.toNat + second.toNat < 2 ^ 32) :
    ∃ b₁ e₁ r₁ b₂ e₂ r₂ b' e' r', submit b (o.withRemaining first) = some (b₁, e₁, r₁) ∧
      submit b₁ (o.withRemaining second) = some (b₂, e₂, r₂) ∧
      submit b (o.withRemaining (first + second)) = some (b', e', r') ∧ Alike b' b₂ ∧
      (∀ id, makerFills id e' = makerFills id e₁ + makerFills id e₂) ∧ r'.filled = r₁.filled + r₂.filled := by
  have sum : (first + second).toNat = first.toNat + second.toNat := by
    rw [UInt32.toNat_add, Nat.mod_eq_of_lt fits]
  have some : ∀ maker ∈ counterparties b o, maker.remaining ≠ 0 :=
    fun maker member => (reachable_waiting small reach (Ladder.marketable_subset member)).2.1
  rcases allotted_of_reachable small reach (o.withRemaining first) cancel good with ⟨b₁, e₁, r₁, call₁, allot₁⟩
  rcases allotted_of_reachable small (reach.next call₁) (o.withRemaining second) cancel good with ⟨b₂, e₂, r₂, call₂, allot₂⟩
  rcases allotted_of_reachable small reach (o.withRemaining (first + second)) cancel good with ⟨b', e', r', call', allot'⟩
  have makers₁ : b₁.waiting (Half.ofSide o.side).opposite = Ladder.keeps first.toNat (counterparties b o) ++ bystanders b o :=
    allot₁.makers
  have left : counterparties b₁ o = Ladder.keeps first.toNat (counterparties b o) ∧ bystanders b₁ o = bystanders b o := by
    rw [counterparties, bystanders, makers₁]
    apply Ladder.split_eq
    · intro maker member
      rcases Ladder.keeps_price member with ⟨other, inside, price⟩
      rw [price]
      exact Ladder.marketable_crosses inside
    · exact allot₁.unmet
  refine ⟨b₁, e₁, r₁, b₂, e₂, r₂, b', e', r', call₁, call₂, call', ?_, ?_, ?_⟩
  · intro h
    by_cases own : h = Half.ofSide o.side
    · rw [own]
      exact (allot'.passes (allot'.passed limit).1).trans
        ((allot₂.passes (allot₂.passed limit).1).trans (allot₁.passes (allot₁.passed limit).1)).symm
    · rw [other_half h o own]
      have makers₂ : b₂.waiting (Half.ofSide o.side).opposite = Ladder.keeps second.toNat (counterparties b₁ o) ++ bystanders b₁ o :=
        allot₂.makers
      have makers' : b'.waiting (Half.ofSide o.side).opposite =
          Ladder.keeps (first + second).toNat (counterparties b o) ++ bystanders b o := allot'.makers
      rw [makers', makers₂, left.1, left.2, Ladder.keeps_keeps some, sum]
  · intro id
    have fills₁ : makerFills id e₁ = Ladder.gives id first.toNat (counterparties b o) := allot₁.makerFills_eq limit id
    have fills₂ : makerFills id e₂ = Ladder.gives id second.toNat (counterparties b₁ o) := allot₂.makerFills_eq limit id
    have fills' : makerFills id e' = Ladder.gives id (first + second).toNat (counterparties b o) := allot'.makerFills_eq limit id
    rw [fills', fills₁, fills₂, left.1, Ladder.gives_add id some, sum]
  · have filled₁ : r₁.filled.toNat = min first.toNat (Ladder.sizes (counterparties b o)).sum := allot₁.filled
    have filled₂ : r₂.filled.toNat = min second.toNat (Ladder.sizes (counterparties b₁ o)).sum := allot₂.filled
    have filled' : r'.filled.toNat = min (first + second).toNat (Ladder.sizes (counterparties b o)).sum := allot'.filled
    rw [left.1, Ladder.sizes_keeps some] at filled₂
    apply UInt32.toNat_inj.mp
    rw [UInt32.toNat_add, filled', filled₁, filled₂, sum, Nat.mod_eq_of_lt (by omega)]
    omega

theorem submit_splits_nine : ∃ b b₁ e₁ r₁ b₂ e₂ r₂ b' e' r',
    Transition.run (fun o b => Matcher.submit b o) threeOffers (create 4 8 4) = some b ∧
      submit b ((orderFour OrderType.IOC 101).withRemaining 5) = some (b₁, e₁, r₁) ∧
      submit b₁ ((orderFour OrderType.IOC 101).withRemaining 4) = some (b₂, e₂, r₂) ∧
      submit b (orderFour OrderType.IOC 101) = some (b', e', r') ∧
      Alike b' b₂ ∧ (∀ id, makerFills id e' = makerFills id e₁ + makerFills id e₂) ∧ r'.filled = r₁.filled + r₂.filled := by
  have returned : (Transition.run (fun o b => Matcher.submit b o) threeOffers (create 4 8 4)).isSome = true := by
    decide +kernel
  rcases Option.isSome_iff_exists.mp returned with ⟨b, reached⟩
  have reach := Transition.Reachable.start.run reached
  rcases submit_splits (by decide) reach (orderFour OrderType.IOC 101) (by decide) (by decide) (by decide) 5 4 (by decide) with
    ⟨b₁, e₁, r₁, b₂, e₂, r₂, b', e', r', calls⟩
  exact ⟨b, b₁, e₁, r₁, b₂, e₂, r₂, b', e', r', reached, calls⟩

/-- The price at which an order of this side meets every order that may rest. -/
def worstPrice (side : Side) : PriceTick := if side = Side.BUY then MAX_VALID_PRICE else MIN_VALID_PRICE

theorem crosses_worst (o : Order) {price : PriceTick} (valid : isValidPrice price = true) :
    crosses { o with type := OrderType.IOC, price := worstPrice o.side } (decide (o.side = Side.BUY)) price = true := by
  rw [isValidPrice, Bool.and_eq_true, decide_eq_true_eq, decide_eq_true_eq] at valid
  have type : OrderType.IOC ≠ OrderType.MARKET := by decide
  by_cases buy : o.side = Side.BUY
  · simp only [crosses, if_neg type, decide_eq_true buy, if_true, worstPrice, if_pos buy, decide_eq_true_eq]
    exact valid.2
  · simp only [crosses, if_neg type, decide_eq_false buy, Bool.false_eq_true, if_false, worstPrice, if_neg buy, decide_eq_true_eq]
    exact valid.1

theorem marketable_all {takerBuy : Bool} {taker : Order} {makers : List Order}
    (meets : ∀ maker ∈ makers, crosses taker takerBuy maker.price = true) : Ladder.marketable takerBuy taker makers = makers := by
  have split := Ladder.split_eq meets fun maker member => (List.not_mem_nil member).elim
  rw [List.append_nil] at split
  exact split.1

def atOnce (o : Order) (price : PriceTick) : Order := { o with type := OrderType.IOC, price := price }

theorem atOnce_passes (o : Order) (price : PriceTick) :
    (atOnce o price).type ≠ OrderType.LIMIT ∧ (atOnce o price).type ≠ OrderType.CANCEL := by
  show OrderType.IOC ≠ OrderType.LIMIT ∧ OrderType.IOC ≠ OrderType.CANCEL
  decide

theorem atOnce_admissible (o : Order) (price : PriceTick) : isAdmissible (atOnce o price) = isValidPrice price := rfl

section AtOnce

variable {b₁ b₂ : OrderBook} {e₁ e₂ : List TradeEvent} {r₁ r₂ : MatchResult} {price : PriceTick}

theorem Allotted.atOnce_makers (first : Allotted b o b₁ e₁ r₁) (second : Allotted b (atOnce o price) b₂ e₂ r₂)
    (met : counterparties b (atOnce o price) = counterparties b o) :
    b₂.waiting (Half.ofSide o.side).opposite = b₁.waiting (Half.ofSide o.side).opposite := by
  have whole := Ladder.marketable_append_beyond (decide (o.side = Side.BUY)) o (b.waiting (Half.ofSide o.side).opposite)
  have whole' := Ladder.marketable_append_beyond (decide (o.side = Side.BUY)) (atOnce o price)
    (b.waiting (Half.ofSide o.side).opposite)
  have joined : counterparties b o ++ bystanders b (atOnce o price) = counterparties b o ++ bystanders b o := by
    rw [← met]
    exact whole'.trans (whole.symm.trans (congrArg (· ++ bystanders b o) met.symm))
  have unmet := List.append_cancel_left joined
  have makers : b₂.waiting (Half.ofSide o.side).opposite =
      Ladder.keeps o.remaining.toNat (counterparties b (atOnce o price)) ++ bystanders b (atOnce o price) := second.makers
  rw [makers, met, unmet, first.makers]

theorem Allotted.atOnce_fills (first : Allotted b o b₁ e₁ r₁) (second : Allotted b (atOnce o price) b₂ e₂ r₂)
    (met : counterparties b (atOnce o price) = counterparties b o) (kept : r₁.rejected = false) : e₂ = e₁ := by
  have fills : e₂ = Ladder.fills (decide (o.side = Side.BUY)) o (counterparties b (atOnce o price)) ++
      if r₂.rejected then [rejectEvent (atOnce o price)] else [] := second.fills
  rw [fills, met, first.fills, (second.passed (atOnce_passes o price).1).2, kept]
  rfl

theorem Allotted.atOnce_result (first : Allotted b o b₁ e₁ r₁) (second : Allotted b (atOnce o price) b₂ e₂ r₂)
    (met : counterparties b (atOnce o price) = counterparties b o) :
    r₂ = { r₁ with rested := false, rejected := false } := by
  have filled : r₂.filled = r₁.filled := by
    apply UInt32.toNat_inj.mp
    rw [second.filled, first.filled, met]
    rfl
  have residual : r₂.residual = r₁.residual := by
    apply UInt32.toNat_inj.mp
    rw [second.residual, first.residual, met]
    rfl
  have trades : r₂.trades = r₁.trades := by
    rw [second.trades, first.trades, met]
    rfl
  rcases second.passed (atOnce_passes o price).1 with ⟨rested, rejected⟩
  have canceled := second.canceled.trans first.canceled.symm
  cases r₂
  cases filled
  cases residual
  cases trades
  cases rested
  cases rejected
  cases canceled
  rfl

theorem unrested (gone : r₁.rested = false) (kept : r₁.rejected = false) : { r₁ with rested := false, rejected := false } = r₁ := by
  cases r₁
  cases gone
  cases kept
  rfl

end AtOnce

/-- A market order does what an order for immediate execution does at the worst price there can be. -/
theorem market_is_ioc (small : maxNodes * CAPACITY < 2 ^ 32)
    (reach : Transition.Reachable (fun o b => Matcher.submit b o) (create maxNodes idCapacity levelCapacity) b) (o : Order)
    (type : o.type = OrderType.MARKET) :
    ∃ b₁ b₂ events result, submit b o = some (b₁, events, result) ∧
      submit b (atOnce o (worstPrice o.side)) = some (b₂, events, result) ∧ Alike b₁ b₂ := by
  have good : isAdmissible o = true := by simp [isAdmissible, type]
  have good' : isAdmissible (atOnce o (worstPrice o.side)) = true := by
    rw [atOnce_admissible, worstPrice]
    split <;> decide
  have limit : o.type ≠ OrderType.LIMIT := by
    rw [type]
    decide
  rcases allotted_of_reachable small reach o (by rw [type]; decide) good with ⟨b₁, e₁, r₁, call₁, allot₁⟩
  rcases allotted_of_reachable small reach (atOnce o (worstPrice o.side)) (atOnce_passes ..).2 good' with ⟨b₂, e₂, r₂, call₂, allot₂⟩
  have met : counterparties b o = b.waiting (Half.ofSide o.side).opposite := by
    apply marketable_all
    intro maker _
    rw [crosses, if_pos type]
  have met' : counterparties b (atOnce o (worstPrice o.side)) = b.waiting (Half.ofSide o.side).opposite := by
    apply marketable_all
    intro maker member
    exact crosses_worst o (reachable_waiting small reach member).2.2
  have same := met'.trans met.symm
  rcases allot₁.passed limit with ⟨gone, kept⟩
  have result : r₂ = r₁ := by
    rw [allot₁.atOnce_result allot₂ same]
    exact unrested gone kept
  refine ⟨b₁, b₂, e₁, r₁, call₁, ?_, ?_⟩
  · rw [call₂, allot₁.atOnce_fills allot₂ same kept, result]
  · intro h
    by_cases own : h = Half.ofSide o.side
    · rw [own, allot₁.passes gone]
      exact (allot₂.passes (allot₂.passed (atOnce_passes ..).1).1).symm
    · rw [other_half h o own]
      exact (allot₁.atOnce_makers allot₂ same).symm

/-- A market order for nine, and one for immediate execution at the highest price. -/
theorem market_is_ioc_nine : ∃ b b₁ b₂ events result,
    Transition.run (fun o b => Matcher.submit b o) threeOffers (create 4 8 4) = some b ∧
      submit b (orderFour OrderType.MARKET 0) = some (b₁, events, result) ∧
      submit b (orderFour OrderType.IOC 1048576) = some (b₂, events, result) ∧ Alike b₁ b₂ := by
  have returned : (Transition.run (fun o b => Matcher.submit b o) threeOffers (create 4 8 4)).isSome = true := by
    decide +kernel
  rcases Option.isSome_iff_exists.mp returned with ⟨b, reached⟩
  rcases market_is_ioc (by decide) (Transition.Reachable.start.run reached) (orderFour OrderType.MARKET 0) rfl with
    ⟨b₁, b₂, events, result, calls⟩
  exact ⟨b, b₁, b₂, events, result, reached, calls⟩

theorem canceled_waiting {cap : Nat} {book : PriceTime.Book} {ladders : Half → Ladder} {b' : OrderBook} {id : OrderId} {removed : Bool}
    (refines : Refines b cap book ladders) (outcome : Canceled cap ladders id b' removed) (h : Half) :
    b'.waiting h = (b.waiting h).filter fun o => decide (o.id ≠ id) := by
  rw [refines.settled.waiting_eq]
  symm
  cases outcome with
  | @removed h' o ladder same home withdrawn settled =>
    subst same
    rcases withdrawn_orders withdrawn with ⟨l₁, l₂, before, after⟩
    have apart : ∀ (h : Half) (other : Order), other ∈ Function.update (Ladder.orders ∘ ladders) h' (l₁ ++ l₂) h →
        other.id ≠ o.id := fun h other => refines.sim.id_apart before
    rw [settled.waiting_eq]
    by_cases here : h = h'
    · subst here
      rw [before, Function.update_self, after, List.filter_append, List.filter_cons_of_neg (by simp), ← List.filter_append]
      apply List.filter_eq_self.mpr
      intro other member
      exact decide_eq_true (apart h other (by rw [Function.update_self]; exact member))
    · rw [Function.update_of_ne here]
      apply List.filter_eq_self.mpr
      intro other member
      exact decide_eq_true (apart h other (by rw [Function.update_of_ne here]; exact member))
  | missed dead settled =>
    rw [settled.waiting_eq]
    apply List.filter_eq_self.mpr
    intro other member
    exact decide_eq_true fun same => dead ⟨h, other, member, same⟩

theorem submit_cancels {cap : Nat} {book : PriceTime.Book} {ladders : Half → Ladder} {c : Order} {h : Half} {maker : Order}
    (refines : Refines b cap book ladders) (cancel : c.type = OrderType.CANCEL) (held : maker ∈ (ladders h).orders)
    (same : c.id = maker.id) :
    ∃ b', submit b c = some (b', [], { canceled := true }) ∧
      ∀ h, b'.waiting h = (b.waiting h).filter fun o => decide (o.id ≠ c.id) := by
  rcases submit_spec refines.settled c with ⟨b', events, result, call, -, outcome⟩
  cases outcome with
  | inadmissible type _ _ => exact absurd cancel type
  | discarded type _ _ _ => exact absurd cancel type
  | rested type _ _ _ _ _ _ => exact absurd cancel type
  | @canceled _ removed _ outcome =>
    have left := canceled_waiting refines outcome
    have gone : removed = true := by
      cases outcome with
      | removed _ _ _ _ => rfl
      | missed dead _ => exact absurd ⟨h, maker, held, same.symm⟩ dead
    rw [gone] at call
    exact ⟨b', call, left⟩

theorem crosses_atOnce (limit : o.type = OrderType.LIMIT) (takerBuy : Bool) (price : PriceTick) :
    crosses (atOnce o o.price) takerBuy price = crosses o takerBuy price := by
  have market : ¬o.type = OrderType.MARKET := by
    rw [limit]
    decide
  have market' : ¬(atOnce o o.price).type = OrderType.MARKET := by
    show OrderType.IOC ≠ OrderType.MARKET
    decide
  rw [crosses, crosses, if_neg market, if_neg market']
  rfl

/-- To rest an order and to cancel it is to have it executed at once. -/
theorem limit_canceled_is_ioc (small : maxNodes * CAPACITY < 2 ^ 32)
    (reach : Transition.Reachable (fun o b => Matcher.submit b o) (create maxNodes idCapacity levelCapacity) b) {o c : Order}
    (limit : o.type = OrderType.LIMIT) (good : isAdmissible o = true) {b₁ : OrderBook} {events : List TradeEvent}
    {result : MatchResult} (call : submit b o = some (b₁, events, result)) (rested : result.rested = true)
    (cancel : c.type = OrderType.CANCEL) (same : c.id = o.id) :
    ∃ b₂ b₃ result', submit b₁ c = some (b₂, [], { canceled := true }) ∧
      submit b (atOnce o o.price) = some (b₃, events, result') ∧ Alike b₂ b₃ ∧ result'.filled = result.filled := by
  have reach₁ := reach.next call
  rcases allotted_of_reachable small reach o (limit_not_cancel limit) good with ⟨_, _, _, again, allot₁⟩
  rw [call] at again
  cases again
  have good' : isAdmissible (atOnce o o.price) = true := by
    rw [atOnce_admissible]
    simpa [isAdmissible, limit, OrderType.LIMIT, OrderType.MARKET, OrderType.CANCEL] using good
  rcases allotted_of_reachable small reach (atOnce o o.price) (atOnce_passes ..).2 good' with ⟨b₃, e₃, r₃, call₃, allot₃⟩
  have met : counterparties b (atOnce o o.price) = counterparties b o := by
    unfold counterparties Ladder.marketable
    congr 1
    funext maker
    exact crosses_atOnce limit _ _
  rcases reachable_clean small reach₁ with ⟨book, ladders, refines, -⟩
  rcases allot₁.rests rested with ⟨l₁, l₂, before, after, -, -⟩
  have split := after
  rw [refines.settled.waiting_eq] at split
  have apart : ∀ (h : Half) (other : Order), other ∈ Function.update (Ladder.orders ∘ ladders) (Half.ofSide o.side) (l₁ ++ l₂) h →
      decide (other.id ≠ c.id) = true := by
    intro h other member
    rw [same]
    exact decide_eq_true (refines.sim.id_apart split member)
  have held : o.withRemaining result.residual ∈ (ladders (Half.ofSide o.side)).orders := by
    rw [split]
    exact List.mem_append_right _ List.mem_cons_self
  rcases submit_cancels refines cancel held same with ⟨b₂, call₂, left⟩
  refine ⟨b₂, b₃, r₃, call₂, ?_, ?_, ?_⟩
  · rw [call₃, allot₁.atOnce_fills allot₃ met (allot₁.once rested)]
  · intro h
    rw [left h]
    by_cases own : h = Half.ofSide o.side
    · subst own
      have stays : b₃.waiting (Half.ofSide o.side) = b.waiting (Half.ofSide o.side) :=
        allot₃.passes (allot₃.passed (atOnce_passes ..).1).1
      rw [stays, before, after, List.filter_append, List.filter_cons_of_neg (by simp [same]), ← List.filter_append]
      apply List.filter_eq_self.mpr
      intro other member
      exact apart _ other (by rw [Function.update_self]; exact member)
    · have makers := allot₁.atOnce_makers allot₃ met
      rw [other_half h o own, makers]
      apply List.filter_eq_self.mpr
      intro other member
      rw [refines.settled.waiting_eq] at member
      exact apart _ other (by rw [Function.update_of_ne (opposite_ne _)]; exact member)
  · rw [allot₁.atOnce_result allot₃ met]

/-- A bid for nine at 100 takes the seven there; the other two rest and are canceled. -/
theorem limit_canceled_is_ioc_nine : ∃ b b₁ events result b₂ b₃ result',
    Transition.run (fun o b => Matcher.submit b o) threeOffers (create 4 8 4) = some b ∧
      submit b (orderFour OrderType.LIMIT 100) = some (b₁, events, result) ∧
      submit b₁ (orderFour OrderType.CANCEL 0) = some (b₂, [], { canceled := true }) ∧
      submit b (orderFour OrderType.IOC 100) = some (b₃, events, result') ∧ Alike b₂ b₃ ∧ result'.filled = result.filled := by
  have returned : ((Transition.run (fun o b => Matcher.submit b o) threeOffers (create 4 8 4)).bind fun b =>
      (submit b (orderFour OrderType.LIMIT 100)).map fun answer => answer.2.2.rested) = some true := by
    decide +kernel
  rcases Option.bind_eq_some_iff.mp returned with ⟨b, reached, answered⟩
  rcases Option.map_eq_some_iff.mp answered with ⟨⟨b₁, events, result⟩, call, rested⟩
  rcases limit_canceled_is_ioc (by decide) (Transition.Reachable.start.run reached) rfl (by decide) call rested
    (c := orderFour OrderType.CANCEL 0) rfl rfl with
    ⟨b₂, b₃, result', calls⟩
  exact ⟨b, b₁, events, result, b₂, b₃, result', reached, call, calls⟩

end Matcher

end Titan
