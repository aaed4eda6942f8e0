import Titan.Book.PriceTime
import Titan.Book.RBInvariant
import Mathlib.Data.List.Nodup

namespace Titan

namespace Ladder

open Matcher (crosses fillQty)

/-- Fill a taker from makers in the order of their priority. -/
def crossOrders (takerBuy : Bool) (taker : Order) : List Order → Sweep (List Order)
  | [] => { left := [], taker := taker, events := [] }
  | maker :: rest =>
    if taker.remaining = 0 ∨ crosses taker takerBuy maker.price = false then
      { left := maker :: rest, taker := taker, events := [] }
    else
      let filled := fill takerBuy taker maker
      if filled.left = [] then
        let later := crossOrders takerBuy filled.taker rest
        { later with events := filled.events ++ later.events }
      else { filled with left := filled.left ++ rest }

def Priced (ladder : Ladder) : Prop := ∀ rung ∈ ladder, ∀ o ∈ rung.2, o.price = rung.1

theorem crosses_withRemaining (taker : Order) (takerBuy : Bool) (price : PriceTick) (r : Qty) :
    crosses (taker.withRemaining r) takerBuy price = crosses taker takerBuy price := rfl

theorem crossOrders_append (takerBuy : Bool) (taker : Order) {price : PriceTick} (queue rest : List Order)
    (priced : ∀ o ∈ queue, o.price = price) (meets : crosses taker takerBuy price = true) :
    crossOrders takerBuy taker (queue ++ rest) =
      if (sweep takerBuy taker queue).left = [] then
        let later := crossOrders takerBuy (sweep takerBuy taker queue).taker rest
        { later with events := (sweep takerBuy taker queue).events ++ later.events }
      else { sweep takerBuy taker queue with left := (sweep takerBuy taker queue).left ++ rest } := by
  induction queue generalizing taker with
  | nil => rfl
  | cons maker queue ih =>
    have here := priced maker List.mem_cons_self
    have later : ∀ o ∈ queue, o.price = price := fun o held => priced o (List.mem_cons_of_mem _ held)
    rw [List.cons_append, crossOrders, here, meets, sweep]
    by_cases done : taker.remaining = 0
    · simp [done]
    · rcases fill_taker takerBuy taker maker with ⟨r, filled⟩
      have meets' : crosses (fill takerBuy taker maker).taker takerBuy price = true := by
        rw [filled, crosses_withRemaining]
        exact meets
      simp only [done, Bool.true_eq_false, or_self, if_false]
      by_cases gone : (fill takerBuy taker maker).left = []
      · simp only [gone, if_true]
        rw [ih _ later meets']
        split
        · simp only [List.append_assoc]
        · rfl
      · have some : (fill takerBuy taker maker).left ++ queue ≠ [] := by simp [gone]
        simp only [gone, if_false, some, List.append_assoc]

theorem cross_eq_crossOrders (takerBuy : Bool) (taker : Order) (ladder : Ladder) (priced : Priced ladder)
    (inhabited : ∀ rung ∈ ladder, rung.2 ≠ []) :
    crossOrders takerBuy taker ladder.orders =
      { left := (cross takerBuy taker ladder).left.orders
        taker := (cross takerBuy taker ladder).taker
        events := (cross takerBuy taker ladder).events } := by
  induction ladder generalizing taker with
  | nil => rfl
  | cons rung rest ih =>
    have tail := fun taker => ih taker (fun rung held => priced rung (List.mem_cons_of_mem _ held))
      fun rung held => inhabited rung (List.mem_cons_of_mem _ held)
    rcases rung with ⟨price, queue⟩
    have here : ∀ o ∈ queue, o.price = price := priced (price, queue) List.mem_cons_self
    have unfolded : Ladder.orders ((price, queue) :: rest) = queue ++ Ladder.orders rest := rfl
    rw [cross]
    by_cases stops : taker.remaining = 0 ∨ crosses taker takerBuy price = false
    · rw [if_pos stops, unfolded]
      cases queue with
      | nil => exact absurd rfl (inhabited (price, []) List.mem_cons_self)
      | cons maker queue =>
        rw [← here maker List.mem_cons_self] at stops
        rw [List.cons_append, crossOrders, if_pos stops]
    · have meets : crosses taker takerBuy price = true := by
        simpa using (not_or.mp stops).2
      rw [if_neg stops, unfolded, crossOrders_append takerBuy taker queue (Ladder.orders rest) here meets]
      by_cases gone : (sweep takerBuy taker queue).left = []
      · simp only [gone, if_true]
        rw [tail]
      · simp only [gone, if_false]
        rfl

theorem fill_status (takerBuy : Bool) (taker maker : Order) :
    ∀ event ∈ (fill takerBuy taker maker).events, event.status = TRADE_STATUS_FILL := by
  intro event member
  rw [fill] at member
  split at member
  · cases member
  · rw [List.mem_singleton.mp member]
    rfl

theorem crossOrders_status (takerBuy : Bool) (taker : Order) (makers : List Order) :
    ∀ event ∈ (crossOrders takerBuy taker makers).events, event.status = TRADE_STATUS_FILL := by
  induction makers generalizing taker with
  | nil =>
    intro event member
    cases member
  | cons maker rest ih =>
    have here := fill_status takerBuy taker maker
    intro event member
    rw [crossOrders] at member
    split at member
    · cases member
    · by_cases gone : (fill takerBuy taker maker).left = []
      · simp only [gone, if_true] at member
        rcases List.mem_append.mp member with first | later
        · exact here event first
        · exact ih _ event later
      · simp only [gone, if_false] at member
        exact here event member

theorem fill_left_length (takerBuy : Bool) (taker maker : Order) : (fill takerBuy taker maker).left.length ≤ 1 := by
  rw [fill]
  split
  · exact Nat.zero_le 1
  · dsimp only
    split
    · exact Nat.zero_le 1
    · exact Nat.le_refl 1

theorem crossOrders_length (takerBuy : Bool) (taker : Order) (makers : List Order) :
    (crossOrders takerBuy taker makers).left.length ≤ makers.length := by
  induction makers generalizing taker with
  | nil => exact Nat.le_refl 0
  | cons maker rest ih =>
    have one := fill_left_length takerBuy taker maker
    rw [crossOrders]
    split
    · exact Nat.le_refl _
    · by_cases gone : (fill takerBuy taker maker).left = []
      · simp only [gone, if_true]
        exact Nat.le_succ_of_le (ih _)
      · simp only [gone, if_false, List.length_append, List.length_cons]
        omega

theorem crossOrders_meets {takerBuy : Bool} {taker maker : Order} (rest : List Order) (more : taker.remaining ≠ 0)
    (meets : crosses taker takerBuy maker.price = true) :
    (crossOrders takerBuy taker (maker :: rest)).events ≠ [] ∨
      (crossOrders takerBuy taker (maker :: rest)).left.length ≤ rest.length := by
  have goes : ¬(taker.remaining = 0 ∨ crosses taker takerBuy maker.price = false) := by simp [more, meets]
  rw [crossOrders, if_neg goes]
  by_cases empty : maker.remaining = 0
  · right
    rw [fill, if_pos empty]
    exact crossOrders_length takerBuy taker rest
  · left
    by_cases full : maker.remaining - fillQty taker maker = 0
    · rw [fill_full takerBuy empty full]
      simp
    · rw [fill_part takerBuy empty full]
      simp

end Ladder

namespace PriceTime

variable {book : Book} {orders : Half → List Order} {h : Half} {o : Order} {makers l₁ l₂ : List Order}

/-- `orders` lists the orders of each half as they stand in their queues, the list of
    resting orders has the same queues. -/
structure Sim (book : Book) (orders : Half → List Order) : Prop where
  queues : ∀ h price, book.filter (fun r => decide (r.side = h ∧ r.price = price)) =
    ((orders h).filter fun o => decide (o.price = price)).map Resting.of
  ids : (book.map Resting.id).Nodup
  alive : ∀ r ∈ book, r.remaining ≠ 0

def Ranked (h : Half) (makers : List Order) : Prop :=
  makers.Pairwise fun o later => better h later.price o.price = false

theorem Sim.mem_iff (sim : Sim book orders) (r : Resting) :
    r ∈ book ↔ ∃ o ∈ orders r.side, o.price = r.price ∧ Resting.of o = r := by
  have here : r ∈ book ↔ r ∈ book.filter fun r' => decide (r'.side = r.side ∧ r'.price = r.price) := by
    simp
  rw [here, sim.queues r.side r.price, List.mem_map]
  constructor
  · intro found
    rcases found with ⟨o, member, same⟩
    rw [List.mem_filter, decide_eq_true_eq] at member
    exact ⟨o, member.1, member.2, same⟩
  · intro found
    rcases found with ⟨o, member, price, same⟩
    exact ⟨o, List.mem_filter.mpr ⟨member, decide_eq_true price⟩, same⟩

theorem Sim.of_mem (sim : Sim book orders) (member : o ∈ orders h) : Resting.of o ∈ book ∧ Half.ofSide o.side = h := by
  have inside : Resting.of o ∈ ((orders h).filter fun o' => decide (o'.price = o.price)).map Resting.of :=
    List.mem_map_of_mem (List.mem_filter.mpr ⟨member, decide_eq_true rfl⟩)
  rw [← sim.queues h o.price, List.mem_filter, decide_eq_true_eq] at inside
  exact ⟨inside.1, inside.2.1⟩

theorem better_eq_before (h : Half) (p q : PriceTick) : better h p q = h.compare.before p q := by
  cases h <;> rfl

theorem better_self (h : Half) (p : PriceTick) : better h p p = false := by
  rw [better_eq_before]
  exact Compare.before_irrefl _ p

theorem better_of_ne {p q : PriceTick} (apart : q ≠ p) (worse : better h q p = false) : better h p q = true := by
  rw [better_eq_before] at worse ⊢
  rcases Compare.before_total apart with ordered | ordered
  · rw [worse] at ordered
    cases ordered
  · exact ordered

theorem better_asymm {p q : PriceTick} (ordered : better h p q = true) : better h q p = false := by
  rw [better_eq_before] at ordered ⊢
  cases back : h.compare.before q p with
  | false => rfl
  | true => exact absurd rfl (Compare.before_ne (Compare.before_trans ordered back))

theorem Sim.live_iff (sim : Sim book orders) (id : OrderId) :
    live book id = true ↔ ∃ h, ∃ o ∈ orders h, o.id = id := by
  rw [live, List.any_eq_true]
  constructor
  · intro found
    rcases found with ⟨r, member, same⟩
    rcases (sim.mem_iff r).mp member with ⟨o, held, -, rfl⟩
    exact ⟨_, o, held, by simpa [Resting.of] using same⟩
  · intro found
    rcases found with ⟨h, o, held, rfl⟩
    exact ⟨Resting.of o, (sim.of_mem held).1, by simp [Resting.of]⟩

theorem without_dead {id : OrderId} (dead : ∀ r ∈ book, r.id ≠ id) : without book id = book := by
  apply List.filter_eq_self.mpr
  intro r member
  simpa using dead r member

theorem without_of_dead {id : OrderId} (dead : live book id = false) : without book id = book := by
  apply without_dead
  intro r member
  simpa using List.any_eq_false.mp dead r member

theorem without_length_lt {r : Resting} (member : r ∈ book) : (without book r.id).length < book.length := by
  apply List.length_filter_lt_length_iff_exists.mpr
  exact ⟨r, member, by simp⟩

theorem nodup_without (distinct : (book.map Resting.id).Nodup) (id : OrderId) : ((without book id).map Resting.id).Nodup :=
  distinct.sublist (List.filter_sublist.map _)

theorem reduce_ids (book : Book) (id : OrderId) (left : Qty) : (reduce book id left).map Resting.id = book.map Resting.id := by
  rw [reduce, List.map_map]
  apply List.map_congr_left
  intro r member
  by_cases here : r.id = id <;> simp [here]

theorem best_mem {r : Resting} (found : best h book = some r) : r ∈ book ∧ r.side = h := by
  induction book with
  | nil => cases found
  | cons s rest ih =>
    rw [best] at found
    split at found
    · rename_i side
      split at found
      · cases found
        exact ⟨List.mem_cons_self, side⟩
      · rename_i t later
        split at found
        · cases found
          exact ⟨List.mem_cons_of_mem _ (ih later).1, (ih later).2⟩
        · cases found
          exact ⟨List.mem_cons_self, side⟩
    · exact ⟨List.mem_cons_of_mem _ (ih found).1, (ih found).2⟩

theorem best_append {r : Resting} {before after : Book} (side : r.side = h)
    (first : ∀ s ∈ before, s.side = h → better h r.price s.price = true)
    (top : ∀ s ∈ after, s.side = h → better h s.price r.price = false) : best h (before ++ r :: after) = some r := by
  induction before with
  | nil =>
    rw [List.nil_append, best, if_pos side]
    cases later : best h after with
    | none => rfl
    | some s =>
      rcases best_mem later with ⟨member, half⟩
      simp only [top s member half]
      rfl
  | cons s before ih =>
    have rest := ih fun t member => first t (List.mem_cons_of_mem _ member)
    rw [List.cons_append, best, rest]
    split
    · rename_i half
      simp only [first s List.mem_cons_self half, if_true]
    · rfl

theorem Sim.best_eq (sim : Sim book orders) (ranked : Ranked h (orders h)) (head : orders h = o :: makers) :
    best h book = some (Resting.of o) := by
  have queue := sim.queues h o.price
  rw [head, List.filter_cons_of_pos (by simp), List.map_cons, List.filter_eq_cons_iff] at queue
  rcases queue with ⟨before, after, split, skipped, -, -⟩
  rw [Ranked, head, List.pairwise_cons] at ranked
  have known : ∀ s ∈ book, s.side = h → s.price = o.price ∨ better h s.price o.price = false := by
    intro s member half
    rcases (sim.mem_iff s).mp member with ⟨o', held, price, -⟩
    rw [half, head] at held
    rcases List.mem_cons.mp held with rfl | later
    · exact .inl price.symm
    · rw [← price]
      exact .inr (ranked.1 o' later)
  have home := (sim.of_mem (head ▸ List.mem_cons_self)).2
  rw [split]
  apply best_append home
  · intro s member half
    have apart : s.price ≠ o.price := by
      intro same
      exact skipped s member (decide_eq_true ⟨half, same⟩)
    have inside : s ∈ book := by
      rw [split]
      exact List.mem_append_left _ member
    exact better_of_ne apart ((known s inside half).resolve_left apart)
  · intro s member half
    have inside : s ∈ book := by
      rw [split]
      exact List.mem_append_right _ (List.mem_cons_of_mem _ member)
    rcases known s inside half with same | worse
    · rw [same]
      exact better_self h _
    · exact worse

theorem Sim.best_none (sim : Sim book orders) (empty : orders h = []) : best h book = none := by
  cases found : best h book with
  | none => rfl
  | some r =>
    rcases best_mem found with ⟨member, half⟩
    rcases (sim.mem_iff r).mp member with ⟨o, held, -, -⟩
    rw [half, empty] at held
    cases held

theorem Sim.id_unique (sim : Sim book orders) {r s : Resting} (left : r ∈ book) (right : s ∈ book) (same : r.id = s.id) :
    r = s := List.inj_on_of_nodup_map sim.ids left right same

theorem Sim.id_apart (sim : Sim book orders) (split : orders h = l₁ ++ o :: l₂) {h' : Half} {o' : Order}
    (member : o' ∈ Function.update orders h (l₁ ++ l₂) h') : o'.id ≠ o.id := by
  intro same
  have standing : o ∈ orders h := by
    rw [split]
    simp
  have held : o' ∈ orders h' := by
    by_cases here : h' = h
    · subst here
      rw [Function.update_self, List.mem_append] at member
      rw [split, List.mem_append, List.mem_cons]
      tauto
    · rwa [Function.update_of_ne here] at member
  have one := sim.id_unique (sim.of_mem held).1 (sim.of_mem standing).1 same
  have half : h' = h := by
    rw [← (sim.of_mem held).2, ← (sim.of_mem standing).2]
    exact congrArg Resting.side one
  have price : o'.price = o.price := congrArg Resting.price one
  subst half
  rw [Function.update_self] at member
  have distinct : ((book.filter fun r => decide (r.side = h' ∧ r.price = o.price)).map Resting.id).Nodup :=
    sim.ids.sublist (List.filter_sublist.map _)
  rw [sim.queues h' o.price, split, List.map_map, List.filter_append, List.filter_cons_of_pos (by simp), List.map_append,
    List.map_cons, List.perm_middle.nodup_iff, List.nodup_cons, ← List.map_append, ← List.filter_append] at distinct
  apply distinct.1
  rw [List.mem_map]
  exact ⟨o', List.mem_filter.mpr ⟨member, decide_eq_true price⟩, same⟩

theorem Sim.remove (sim : Sim book orders) (split : orders h = l₁ ++ o :: l₂) :
    Sim (without book o.id) (Function.update orders h (l₁ ++ l₂)) where
  queues h' price := by
    have rest : (orders h').filter (fun o' => decide (o'.id ≠ o.id)) = Function.update orders h (l₁ ++ l₂) h' := by
      have others : ∀ o' ∈ Function.update orders h (l₁ ++ l₂) h', decide (o'.id ≠ o.id) = true :=
        fun o' member => decide_eq_true (sim.id_apart split member)
      by_cases here : h' = h
      · subst here
        rw [Function.update_self] at others ⊢
        rw [split, List.filter_append, List.filter_cons_of_neg (by simp), ← List.filter_append]
        exact List.filter_eq_self.mpr others
      · rw [Function.update_of_ne here] at others ⊢
        exact List.filter_eq_self.mpr others
    rw [without, List.filter_comm, sim.queues, List.filter_map, List.filter_comm, ← rest]
    rfl
  ids := sim.ids.sublist (List.filter_sublist.map _)
  alive r member := sim.alive r (List.mem_of_mem_filter member)

theorem Sim.refill (sim : Sim book orders) (split : orders h = l₁ ++ o :: l₂) {left : Qty} (some : left ≠ 0) :
    Sim (reduce book o.id left) (Function.update orders h (l₁ ++ o.withRemaining left :: l₂)) where
  queues h' price := by
    have rest : (orders h').map (fun o' => if o'.id = o.id then o'.withRemaining left else o') =
        Function.update orders h (l₁ ++ o.withRemaining left :: l₂) h' := by
      have others : ∀ l : List Order, (∀ o' ∈ l, o'.id ≠ o.id) →
          l.map (fun o' => if o'.id = o.id then o'.withRemaining left else o') = l := by
        intro l apart
        rw [List.map_congr_left fun o' member => if_neg (apart o' member), List.map_id'']
        exact fun _ => rfl
      have apart : ∀ o' ∈ Function.update orders h (l₁ ++ l₂) h', o'.id ≠ o.id :=
        fun o' member => sim.id_apart split member
      by_cases here : h' = h
      · subst here
        rw [Function.update_self] at apart ⊢
        rw [split, List.map_append, List.map_cons, if_pos rfl,
          others l₁ fun o' held => apart o' (List.mem_append_left _ held),
          others l₂ fun o' held => apart o' (List.mem_append_right _ held)]
      · rw [Function.update_of_ne here] at apart ⊢
        exact others _ apart
    have sameBook : (fun r : Resting => decide (r.side = h' ∧ r.price = price)) ∘
        (fun r => if r.id = o.id then { r with remaining := left } else r) =
        fun r => decide (r.side = h' ∧ r.price = price) := by
      funext r
      by_cases hit : r.id = o.id <;> simp [hit]
    have sameOrders : (fun o' : Order => decide (o'.price = price)) ∘
        (fun o' => if o'.id = o.id then o'.withRemaining left else o') = fun o' => decide (o'.price = price) := by
      funext o'
      by_cases hit : o'.id = o.id <;> simp [hit, Order.withRemaining]
    rw [← rest, reduce, List.filter_map, List.filter_map, sameBook, sameOrders, sim.queues, List.map_map, List.map_map]
    apply List.map_congr_left
    intro o' _
    by_cases hit : o'.id = o.id <;> simp [hit, Resting.of, Order.withRemaining]
  ids := by
    rw [reduce_ids]
    exact sim.ids
  alive r member := by
    rcases List.mem_map.mp member with ⟨s, held, rfl⟩
    by_cases here : s.id = o.id
    · rw [if_pos here]
      exact some
    · rw [if_neg here]
      exact sim.alive s held

theorem Sim.push (sim : Sim book orders) (split : orders h = l₁ ++ l₂) (home : Half.ofSide o.side = h)
    (last : ∀ o' ∈ l₂, o'.price ≠ o.price) (fresh : live book o.id = false) (some : o.remaining ≠ 0) :
    Sim (book ++ [Resting.of o]) (Function.update orders h (l₁ ++ o :: l₂)) where
  queues h' price := by
    rw [List.filter_append, sim.queues]
    by_cases here : h' = h
    · subst here
      rw [Function.update_self, split]
      by_cases same : o.price = price
      · have later : l₂.filter (fun o' => decide (o'.price = price)) = [] := by
          apply List.filter_eq_nil_iff.mpr
          intro o' member
          rw [← same, decide_eq_true_eq]
          exact last o' member
        have joins : (Resting.of o).side = h' ∧ (Resting.of o).price = price := ⟨home, same⟩
        simp [later, same, joins]
      · have misses : (Resting.of o).price ≠ price := same
        simp [same, misses]
    · have misses : decide ((Resting.of o).side = h' ∧ (Resting.of o).price = price) = false :=
        decide_eq_false fun both => here (both.1.symm.trans home)
      rw [Function.update_of_ne here, List.filter_singleton, misses]
      exact List.append_nil _
  ids := by
    have unused : ∀ r ∈ book, r.id ≠ o.id := by
      intro r member
      simpa using List.any_eq_false.mp fresh r member
    rw [List.map_append, List.nodup_append]
    refine ⟨sim.ids, List.nodup_singleton _, ?_⟩
    intro id held id' single
    rcases List.mem_map.mp held with ⟨r, member, rfl⟩
    rw [List.mem_singleton.mp single]
    exact unused r member
  alive r member := by
    rcases List.mem_append.mp member with old | new
    · exact sim.alive r old
    · rw [List.mem_singleton.mp new]
      exact some

theorem crosses_eq (taker : Order) (price : PriceTick) :
    Matcher.crosses taker (decide (taker.side = Side.BUY)) price = crosses taker price := by
  rw [Matcher.crosses, crosses]
  split
  · rfl
  · by_cases buy : taker.side = Side.BUY <;> simp [buy]

theorem cross_idle (rounds : Nat) (book : Book) {taker : Order} (done : taker.remaining = 0) :
    cross rounds book taker = { book := book, taker := taker, events := [] } := by
  cases rounds with
  | zero => rfl
  | succ rounds => rw [cross, if_pos done]

theorem fillQty_eq (taker maker : Order) :
    (if (Resting.of maker).remaining ≤ taker.remaining then (Resting.of maker).remaining else taker.remaining) =
      Matcher.fillQty taker maker := by
  rw [Matcher.fillQty, Resting.of]
  by_cases short : taker.remaining < maker.remaining
  · rw [if_pos short, if_neg (UInt32.not_le.mpr short)]
  · rw [if_neg short, if_pos (UInt32.not_lt.mp short)]

theorem fillEvent_eq (taker maker : Order) (left left' qty : Qty) :
    Matcher.fillEvent (maker.withRemaining left) (taker.withRemaining left') (decide (taker.side = Side.BUY)) qty =
      fillEvent taker (Resting.of maker) qty := by
  by_cases buy : taker.side = Side.BUY <;> simp [Matcher.fillEvent, fillEvent, buy, Resting.of, Order.withRemaining]

theorem cross_stops (rounds : Nat) {taker : Order} {maker : Resting}
    (top : best (Half.ofSide taker.side).opposite book = some maker) (stops : crosses taker maker.price = false) :
    cross rounds book taker = { book := book, taker := taker, events := [] } := by
  cases rounds with
  | zero => rfl
  | succ rounds => simp [cross, top, stops]

theorem cross_round (rounds : Nat) {taker maker : Order} (more : taker.remaining ≠ 0)
    (top : best (Half.ofSide taker.side).opposite book = some (Resting.of maker))
    (meets : crosses taker maker.price = true) :
    cross (rounds + 1) book taker =
      let qty := Matcher.fillQty taker maker
      let later := cross rounds
        (if qty = maker.remaining then without book maker.id else reduce book maker.id (maker.remaining - qty))
        (taker.withRemaining (taker.remaining - qty))
      { later with events := fillEvent taker (Resting.of maker) qty :: later.events } := by
  have here : crosses taker (Resting.of maker).price = true := meets
  rw [cross, if_neg more, top]
  simp only [here, if_true, fillQty_eq]
  rfl

theorem crossOrders_full {taker maker : Order} (rest : List Order) (more : taker.remaining ≠ 0)
    (meets : crosses taker maker.price = true) (some : maker.remaining ≠ 0)
    (full : maker.remaining - Matcher.fillQty taker maker = 0) :
    Ladder.crossOrders (decide (taker.side = Side.BUY)) taker (maker :: rest) =
      let later := Ladder.crossOrders (decide (taker.side = Side.BUY))
        (taker.withRemaining (taker.remaining - Matcher.fillQty taker maker)) rest
      { later with events := fillEvent taker (Resting.of maker) (Matcher.fillQty taker maker) :: later.events } := by
  have goes : ¬(taker.remaining = 0 ∨ crosses taker maker.price = false) := by simp [more, meets]
  rw [Ladder.crossOrders, crosses_eq, if_neg goes, Ladder.fill_full _ some full, fillEvent_eq]
  rfl

theorem crossOrders_part {taker maker : Order} (rest : List Order) (more : taker.remaining ≠ 0)
    (meets : crosses taker maker.price = true) (some : maker.remaining ≠ 0)
    (left : maker.remaining - Matcher.fillQty taker maker ≠ 0) :
    Ladder.crossOrders (decide (taker.side = Side.BUY)) taker (maker :: rest) =
      { left := maker.withRemaining (maker.remaining - Matcher.fillQty taker maker) :: rest
        taker := taker.withRemaining (taker.remaining - Matcher.fillQty taker maker)
        events := [fillEvent taker (Resting.of maker) (Matcher.fillQty taker maker)] } := by
  have goes : ¬(taker.remaining = 0 ∨ crosses taker maker.price = false) := by simp [more, meets]
  rw [Ladder.crossOrders, crosses_eq, if_neg goes, Ladder.fill_part _ some left, fillEvent_eq]
  rfl

/-- The reference, one best order after the other, does what crossing does along the list. -/
theorem Sim.cross_eq (rounds : Nat) (makers : List Order) (enough : makers.length ≤ rounds) (taker : Order)
    (sim : Sim book orders) (head : orders (Half.ofSide taker.side).opposite = makers)
    (ranked : Ranked (Half.ofSide taker.side).opposite makers) :
    (cross rounds book taker).taker = (Ladder.crossOrders (decide (taker.side = Side.BUY)) taker makers).taker ∧
      (cross rounds book taker).events = (Ladder.crossOrders (decide (taker.side = Side.BUY)) taker makers).events ∧
      Sim (cross rounds book taker).book (Function.update orders (Half.ofSide taker.side).opposite
        (Ladder.crossOrders (decide (taker.side = Side.BUY)) taker makers).left) := by
  induction makers generalizing rounds taker book orders with
  | nil =>
    have none := sim.best_none head
    have stays : cross rounds book taker = { book := book, taker := taker, events := [] } := by
      cases rounds with
      | zero => rfl
      | succ rounds => simp [cross, none]
    rw [stays, Ladder.crossOrders]
    refine ⟨rfl, rfl, ?_⟩
    rw [← head, Function.update_eq_self]
    exact sim
  | cons maker rest ih =>
    have top := sim.best_eq (head ▸ ranked) head
    have split : orders (Half.ofSide taker.side).opposite = [] ++ maker :: rest := head
    have stays : Sim book (Function.update orders (Half.ofSide taker.side).opposite (maker :: rest)) := by
      rw [← head, Function.update_eq_self]
      exact sim
    by_cases done : taker.remaining = 0
    · rw [cross_idle _ _ done, Ladder.crossOrders, if_pos (.inl done)]
      exact ⟨rfl, rfl, stays⟩
    by_cases stops : crosses taker maker.price = false
    · rw [cross_stops rounds top stops, Ladder.crossOrders, crosses_eq, if_pos (.inr stops)]
      exact ⟨rfl, rfl, stays⟩
    have meets : crosses taker maker.price = true := by simpa using stops
    have some : maker.remaining ≠ 0 := sim.alive _ (sim.of_mem (head ▸ List.mem_cons_self)).1
    cases rounds with
    | zero => exact absurd enough (Nat.not_succ_le_zero _)
    | succ rounds =>
      rw [cross_round rounds done top meets]
      by_cases full : maker.remaining - Matcher.fillQty taker maker = 0
      · have whole : Matcher.fillQty taker maker = maker.remaining := by
          rw [UInt32.sub_eq_iff_eq_add, UInt32.zero_add] at full
          exact full.symm
        rw [crossOrders_full rest done meets some full]
        simp only [if_pos whole]
        have later := ih rounds (Nat.le_of_succ_le_succ enough)
          (taker.withRemaining (taker.remaining - Matcher.fillQty taker maker)) (sim.remove split)
          (Function.update_self ..) (List.pairwise_cons.mp ranked).2
        simp only [List.nil_append, Order.withRemaining_side, Function.update_idem] at later
        rw [later.1, later.2.1]
        exact ⟨rfl, rfl, later.2.2⟩
      · have part : Matcher.fillQty taker maker ≠ maker.remaining := by
          intro whole
          rw [whole] at full
          exact full (UInt32.sub_self _)
        have spent := (Ladder.sub_fillQty taker maker).1.resolve_left full
        rw [crossOrders_part rest done meets some full]
        simp only [if_neg part]
        rw [cross_idle rounds _ (Order.withRemaining_remaining .. |>.trans spent)]
        exact ⟨rfl, rfl, sim.refill split full⟩

theorem Sim.length_le (makers : List Order) (sim : Sim book orders) (all : orders h = makers) :
    makers.length ≤ book.length := by
  induction makers generalizing book orders with
  | nil => exact Nat.zero_le _
  | cons o rest ih =>
    have split : orders h = [] ++ o :: rest := all
    have member : Resting.of o ∈ book := (sim.of_mem (all ▸ List.mem_cons_self)).1
    have fewer : (without book o.id).length < book.length := without_length_lt member
    have later := ih (sim.remove split) (Function.update_self ..)
    exact Nat.lt_of_le_of_lt later fewer

end PriceTime

end Titan
