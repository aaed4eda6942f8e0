import Titan.Book.NodePool

namespace Titan

open RedBlack Linked PinNode
open RBPriceIndex (NIL)

namespace OrderBook

variable {b b' : OrderBook} {cap : Nat} {L : Layout} {h : Half} {ladders : Half → Ladder}

/-- A level at the price has a slot or can get a node, or a level can be made. -/
def Room (b : OrderBook) (h : Half) (price : PriceTick) : Prop :=
  (∃ i ∈ (b.maps h).iterate, (b.maps h).key i = price ∧ ((b.nodes (b.level h i).tail).full = false ∨ b.freeNodes ≠ [])) ∨
    (∀ i ∈ (b.maps h).iterate, (b.maps h).key i ≠ price) ∧ (b.maps h).free ≠ [] ∧ b.freeNodes ≠ []

def Acceptable (b : OrderBook) (o : Order) : Prop :=
  o.id.toNat < b.slabSize ∧ (b.locators o.id.toNat).node = INVALID_INDEX ∧ b.Room (Half.ofSide o.side) o.price

theorem Rep.hasRoom_iff (rep : Rep b cap L) (h : Half) (price : PriceTick) : b.hasRoom h price = true ↔ b.Room h price := by
  rw [Room, rep.iterate_eq h]
  rcases RBPriceIndex.find_spec (rep.valid h) price with ⟨i, found, ⟨member, rfl⟩ | ⟨rfl, absent⟩⟩
  · have real : i ≠ NIL := rep.cell_ne_nil member
    have here : b.hasRoom h ((b.maps h).key i) = true ↔ (b.nodes (b.level h i).tail).full = false ∨ b.freeNodes ≠ [] := by
      rw [hasRoom, found]
      simp [real]
    rw [here]
    constructor
    · intro room
      exact .inl ⟨i, member, rfl, room⟩
    · intro either
      rcases either with ⟨j, inside, same, room⟩ | ⟨absent, -⟩
      · rwa [← (rep.valid h).key_injective inside member same]
      · exact absurd rfl (absent i member)
  · have here : b.hasRoom h price = true ↔ (b.maps h).free ≠ [] ∧ b.freeNodes ≠ [] := by
      rw [hasRoom, found]
      simp
    rw [here]
    constructor
    · intro both
      exact .inr ⟨absent, both⟩
    · intro either
      rcases either with ⟨i, member, same, -⟩ | ⟨-, both⟩
      · exact absurd same (absent i member)
      · exact both

theorem Settled.add_iff (settled : Settled b cap ladders) (o : Order) :
    ∃ b' rested, b.add o = some (b', rested) ∧ (rested = true ↔ b.Acceptable o) ∧ (rested = false → Untouched b b') := by
  rcases add_spec settled o with ⟨b', rested, call, -, outcome⟩
  refine ⟨b', rested, call, ?_⟩
  rcases settled.rep with ⟨L, rep, rfl⟩
  have live := rep.live_iff o.id
  have room := rep.hasRoom_iff (Half.ofSide o.side) o.price
  cases outcome with
  | rested within dead slot placed settled' =>
    have unused : (b.locators o.id.toNat).node = INVALID_INDEX := not_not.mp fun named => dead (live.mp named)
    refine ⟨⟨fun _ => ⟨within, unused, room.mp slot⟩, fun _ => rfl⟩, ?_⟩
    intro failed
    cases failed
  | refused settled' untouched why =>
    refine ⟨⟨fun accepted => absurd accepted Bool.false_ne_true, ?_⟩, fun _ => untouched⟩
    intro acceptable
    rcases acceptable with ⟨within, unused, slot⟩
    rcases why with high | named | full
    · exact absurd within (Nat.not_lt.mpr high)
    · exact absurd unused (live.mpr named)
    · rw [room.mpr slot] at full
      cases full

/-- In every run, `add` takes an order exactly when it has an id and a place for it, and
    leaves no trace of an order that it does not take. -/
theorem add_accepts_iff {maxNodes idCapacity levelCapacity : Nat} (small : maxNodes * CAPACITY < 2 ^ 32)
    (reach : Transition.Reachable step (create maxNodes idCapacity levelCapacity) b) (o : Order) :
    ∃ b' rested, b.add o = some (b', rested) ∧ (rested = true ↔ b.Acceptable o) ∧ (rested = false → Untouched b b') := by
  rcases reachable_settled small reach with ⟨ladders, settled, -⟩
  exact settled.add_iff o

def sellAbove : Order := { sellTen with id := 2, seq := 1, price := 101 }

/-- A second price finds no node left: its level is made and taken back. -/
theorem add_accepts_iff_no_node : ∃ b b', Transition.run step [.add sellTen] (create 1 4 4) = some b ∧
    b.add sellAbove = some (b', false) ∧ Untouched b b' := by
  have answer : ((Transition.run step [.add sellTen] (create 1 4 4)).bind fun b => (b.add sellAbove).map Prod.snd) =
      some false := by
    decide +kernel
  rcases Option.bind_eq_some_iff.mp answer with ⟨b, reached, added⟩
  have small : 1 * CAPACITY < 2 ^ 32 := by decide
  rcases add_accepts_iff small (Transition.Reachable.start.run reached) sellAbove with ⟨b', rested, call, -, untouched⟩
  rw [call] at added
  cases added
  exact ⟨b, b', reached, call, untouched rfl⟩

theorem Settled.chain_ne_nil {i : Nat} (settled : Settled b cap (L.ladder b)) (member : i ∈ (L.tree h).inorder) :
    (L.chain h i).spots ≠ [] := by
  intro empty
  apply settled.inhabited h _ (List.mem_map.mpr ⟨i, member, rfl⟩)
  rw [Chain.queue, empty]
  rfl

theorem Settled.levels_le (settled : Settled b cap (L.ladder b)) (h : Half) :
    (L.tree h).inorder.length ≤ (L.half h).spots.length := by
  have some : ∀ i ∈ (L.tree h).inorder, (L.chain h i).spots ≠ [] := fun i member => settled.chain_ne_nil member
  rw [Layout.half]
  generalize (L.tree h).inorder = cells at some
  induction cells with
  | nil => exact Nat.zero_le _
  | cons i rest ih =>
    have later := ih fun j member => some j (List.mem_cons_of_mem _ member)
    have here := List.length_pos_of_ne_nil (some i List.mem_cons_self)
    rw [List.flatMap_cons, Chain.spots_append, List.length_append, List.length_cons]
    omega

/-- Where the nodes are: each one on the stack of free nodes or under one level, which holds an
    order. An order that has an id and could have a level is refused only when no node is free. -/
structure Housed (b : OrderBook) (maxNodes : Nat) : Prop where
  used : ∀ n < maxNodes, n ∉ b.freeNodes → ∃ h, ∃ i ∈ (b.maps h).iterate, n ∈ b.chainOf h i ∧
    (∀ h' i', i' ∈ (b.maps h').iterate → n ∈ b.chainOf h' i' → h' = h ∧ i' = i) ∧
    ∃ id ∈ b.liveIds, (b.locators id).node ∈ b.chainOf h i
  levels : (b.maps .bids).iterate.length + (b.maps .asks).iterate.length ≤ b.activeOrders.toNat
  refused : ∀ o b', o.id.toNat < b.slabSize → (b.locators o.id.toNat).node = INVALID_INDEX →
    ((∃ i ∈ (b.maps (Half.ofSide o.side)).iterate, (b.maps (Half.ofSide o.side)).key i = o.price) ∨
      (b.maps (Half.ofSide o.side)).free ≠ []) →
    b.add o = some (b', false) → b.freeNodes = [] ∧ (0 < maxNodes → 0 < b.activeOrders.toNat)

theorem Settled.used_under_level (settled : Settled b cap (L.ladder b)) (rep : Rep b cap L) {n : Nat} (low : n < b.nodeCount)
    (used : n ∉ b.freeNodes) : ∃ h, ∃ i ∈ (b.maps h).iterate, n ∈ b.chainOf h i ∧
      (∀ h' i', i' ∈ (b.maps h').iterate → n ∈ b.chainOf h' i' → h' = h ∧ i' = i) ∧
      ∃ id ∈ b.liveIds, (b.locators id).node ∈ b.chainOf h i := by
  have placed := rep.stock.pool.mem_iff.mpr (List.mem_range.mpr low)
  rcases List.mem_map.mp ((List.mem_append.mp placed).resolve_left used) with ⟨block, held, rfl⟩
  rcases Layout.mem_blocks.mp held with ⟨h, i, member, inside⟩
  have here : block.1 ∈ (L.chain h i).map Prod.fst := List.mem_map.mpr ⟨block, inside, rfl⟩
  refine ⟨h, i, by rwa [rep.iterate_eq], by rwa [rep.chainOf_eq member], ?_, ?_⟩
  · intro h' i' member' there
    rw [rep.iterate_eq] at member'
    rw [rep.chainOf_eq member'] at there
    by_contra apart
    exact (rep.focus member).apart here (Layout.mem_others member' apart there) rfl
  · rcases List.exists_mem_of_ne_nil _ (settled.chain_ne_nil member) with ⟨spot, spotted⟩
    have found := mem_blocks_spots.mpr ⟨h, i, member, spotted⟩
    have posted := rep.stock.posted spot found
    have real := rep.stock.ne_invalid (rep.stock.lt_of_block (Chain.fst_mem_of_mem_spots found))
    rw [rep.chainOf_eq member]
    refine ⟨(b.orderAt spot).id.toNat, mem_liveIds.mpr ⟨posted.1, ?_⟩, ?_⟩
    · rw [posted.2]
      exact real
    · rw [posted.2]
      exact Chain.fst_mem_of_mem_spots spotted

theorem Settled.levels_le_active (settled : Settled b cap (L.ladder b)) (rep : Rep b cap L) :
    (b.maps .bids).iterate.length + (b.maps .asks).iterate.length ≤ b.activeOrders.toNat := by
  have short := rep.stock.spots_length
  rw [rep.iterate_eq, rep.iterate_eq, activeOrders, rep.stock.count, UInt64.toNat_ofNat', Nat.mod_eq_of_lt (by omega),
    Layout.blocks, Chain.spots_append, List.length_append]
  exact Nat.add_le_add (settled.levels_le .bids) (settled.levels_le .asks)

theorem Settled.no_node (settled : Settled b cap ladders) {o : Order} (within : o.id.toNat < b.slabSize)
    (unused : (b.locators o.id.toNat).node = INVALID_INDEX)
    (level : (∃ i ∈ (b.maps (Half.ofSide o.side)).iterate, (b.maps (Half.ofSide o.side)).key i = o.price) ∨
      (b.maps (Half.ofSide o.side)).free ≠ [])
    (call : b.add o = some (b', false)) : b.freeNodes = [] := by
  rcases settled.add_iff o with ⟨_, rested, again, accepts, -⟩
  rw [call] at again
  cases again
  by_contra some
  have refused : ¬b.Acceptable o := fun fits => absurd (accepts.mpr fits) Bool.false_ne_true
  apply refused
  refine ⟨within, unused, ?_⟩
  by_cases here : ∃ i ∈ (b.maps (Half.ofSide o.side)).iterate, (b.maps (Half.ofSide o.side)).key i = o.price
  · rcases here with ⟨i, member, same⟩
    exact .inl ⟨i, member, same, .inr some⟩
  · refine .inr ⟨?_, level.resolve_left here, some⟩
    intro i member same
    exact here ⟨i, member, same⟩

theorem Settled.housed (settled : Settled b cap ladders) : Housed b b.nodeCount := by
  rcases settled.rep with ⟨L, rep, rfl⟩
  have levels := settled.levels_le_active rep
  refine ⟨fun n low used => settled.used_under_level rep low used, levels, ?_⟩
  intro o b' within unused level call
  have none := settled.no_node within unused level call
  refine ⟨none, ?_⟩
  intro some
  have used : 0 ∉ b.freeNodes := by simp [none]
  rcases settled.used_under_level rep some used with ⟨h, i, member, -, -, -⟩
  have one := List.length_pos_of_mem member
  cases h with
  | bids => omega
  | asks => omega

/-- In every run, a node that is not free is under exactly one level, and that level holds an
    order; so it is for the book that `submit` has crossed before it adds what is left. -/
theorem nodes_housed {maxNodes idCapacity levelCapacity : Nat} (small : maxNodes * CAPACITY < 2 ^ 32)
    (reach : Transition.Reachable step (create maxNodes idCapacity levelCapacity) b) :
    Housed b maxNodes ∧ (b.activeOrders = 0 → b.freeNodeCount.toNat = maxNodes) ∧
      ∀ o m, ({ book := b, taker := o } : Matcher).crossOpposite = some m → Housed m.book maxNodes := by
  rcases reachable_settled small reach with ⟨ladders, settled, kept⟩
  have housed := settled.housed
  have idle := settled.partitioned.idle
  rw [show b.nodeCount = maxNodes from kept.nodeCount] at housed idle
  refine ⟨housed, idle, ?_⟩
  intro o m crossed
  rcases Matcher.crossOpposite_spec (m := { book := b, taker := o }) settled with ⟨_, again, after⟩
  rw [crossed] at again
  cases again
  have housed' := after.settled.housed
  rwa [show m.book.nodeCount = maxNodes from (kept.trans after.kept).nodeCount] at housed'

/-- A seller of 65 takes the two nodes of the best bid and the one under it. -/
theorem nodes_housed_four_nodes : ∃ b m, Transition.run step fourNodes (create 5 0 4) = some b ∧ b.freeNodes = [4] ∧ Housed b 5 ∧
    ({ book := b, taker := { sellTen with id := 67, price := 99, quantity := 65, remaining := 65 } } : Matcher).crossOpposite = some m ∧
    m.book.freeNodes.length = 4 ∧ Housed m.book 5 := by
  have ran : ((Transition.run step fourNodes (create 5 0 4)).bind fun b =>
      ({ book := b, taker := { sellTen with id := 67, price := 99, quantity := 65, remaining := 65 } } : Matcher).crossOpposite.map fun m =>
        decide (b.freeNodes = [4] ∧ m.book.freeNodes.length = 4)) = some true := by
    decide +kernel
  rcases Option.bind_eq_some_iff.mp ran with ⟨b, reached, swept⟩
  rcases Option.map_eq_some_iff.mp swept with ⟨m, crossed, facts⟩
  rcases of_decide_eq_true facts with ⟨free, freed⟩
  have small : 5 * CAPACITY < 2 ^ 32 := by decide
  have housed := nodes_housed small (Transition.Reachable.start.run reached)
  exact ⟨b, m, reached, free, housed.1, crossed, freed, housed.2.2 _ m crossed⟩

/-- Sixty-five bids at one price, the first sixty-four of them cancelled. -/
def packed : List Call :=
  (List.range 65).map (fun k =>
    .add { id := UInt64.ofNat k, seq := 0, price := 100, quantity := 1, remaining := 1, side := 0, type := 0 }) ++
  (List.range 64).map fun k => .cancel (UInt64.ofNat k)

/-- The one order left keeps both nodes of its level in use, the first of them empty, and an
    order with a fresh id and another price is refused although its level could be made. -/
theorem empty_node_in_use : ∃ b, Transition.run step packed (create 2 0 4) = some b ∧ b.activeOrders = 1 ∧
    0 < b.nodeCount ∧ 0 ∉ b.freeNodes ∧ (b.nodes 0).occupancyMask = 0 ∧ b.nodeCount - b.freeNodes.length = 2 ∧
    (b.maps .bids).free ≠ [] ∧ (b.locators 100).node = INVALID_INDEX ∧ 100 < b.slabSize ∧
    (b.add { id := 100, seq := 0, price := 101, quantity := 1, remaining := 1, side := 0, type := 0 }).map Prod.snd =
      some false := by
  have ran : (Transition.run step packed (create 2 0 4)).map (fun b => decide (b.activeOrders = 1 ∧
      0 < b.nodeCount ∧ 0 ∉ b.freeNodes ∧ (b.nodes 0).occupancyMask = 0 ∧ b.nodeCount - b.freeNodes.length = 2 ∧
      (b.maps .bids).free ≠ [] ∧ (b.locators 100).node = INVALID_INDEX ∧ 100 < b.slabSize ∧
      (b.add { id := 100, seq := 0, price := 101, quantity := 1, remaining := 1, side := 0, type := 0 }).map Prod.snd =
        some false)) = some true := by decide +kernel
  rcases Option.map_eq_some_iff.mp ran with ⟨b, reached, facts⟩
  exact ⟨b, reached, of_decide_eq_true facts⟩

end OrderBook

end Titan
