import Titan.Book.Crossing
import Titan.Data.Transition
import Mathlib.Data.Set.Function

namespace Titan

open RedBlack Linked PinNode
open RBPriceIndex (NIL)

namespace OrderBook

inductive Call
  | add (o : Order)
  | cancel (id : OrderId)
  | submit (o : Order)

inductive Reply
  | added (rested : Bool)
  | canceled (removed : Bool)
  | submitted (events : List TradeEvent) (result : MatchResult)
  deriving DecidableEq, Repr

def step : Call → OrderBook → Option (OrderBook × Reply)
  | .add o, b => (b.add o).map fun answer => (answer.1, .added answer.2)
  | .cancel id, b => (b.cancel id).map fun answer => (answer.1, .canceled answer.2)
  | .submit o, b => (Matcher.submit b o).map fun answer => (answer.1, .submitted answer.2.1 answer.2.2)

variable {b b' : OrderBook} {cap : Nat} {L : Layout} {h : Half} {i n s : Nat} {q : List Nat} {chain : Chain}
  {ladders : Half → Ladder}

theorem create_settled {maxNodes : Nat} (small : maxNodes * CAPACITY < 2 ^ 32) (idCapacity levelCapacity : Nat) :
    Settled (create maxNodes idCapacity levelCapacity) (levelCapacity % 2 ^ 32) fun _ => [] := by
  refine ⟨⟨⟨fun _ => .nil, fun _ _ => []⟩, ⟨?_, ?_, ⟨small, ?_, ?_, ?_, ?_, rfl⟩, ?_⟩, rfl⟩, ?_⟩
  · intro h
    exact RBPriceIndex.create_valid h.compare levelCapacity
  · intro h
    rfl
  · exact List.Perm.of_eq (List.append_nil _)
  · intro n q member
    cases member
  · intro spot member
    cases member
  · intro id named
    exact absurd rfl named
  · intro h i member
    cases member
  · intro h rung member
    cases member

theorem step_spec (settled : Settled b cap ladders) (call : Call) :
    ∃ b' reply ladders', step call b = some (b', reply) ∧ Kept b b' ∧ Settled b' cap ladders' := by
  cases call with
  | add o =>
    rcases add_spec settled o with ⟨b', rested, call, kept, outcome⟩
    refine ⟨b', .added rested, ?_⟩
    rw [step, call]
    cases outcome with
    | rested _ _ _ _ settled' => exact ⟨_, rfl, kept, settled'⟩
    | refused settled' _ _ => exact ⟨_, rfl, kept, settled'⟩
  | cancel id =>
    rcases cancel_spec settled id with ⟨b', canceled, call, kept, outcome⟩
    refine ⟨b', .canceled canceled, ?_⟩
    rw [step, call]
    cases outcome with
    | removed _ _ _ settled' => exact ⟨_, rfl, kept, settled'⟩
    | missed _ settled' => exact ⟨_, rfl, kept, settled'⟩
  | submit o =>
    rcases Matcher.submit_spec settled o with ⟨b', events, result, call, kept, outcome⟩
    refine ⟨b', .submitted events result, ?_⟩
    rw [step, call]
    cases outcome with
    | canceled _ outcome =>
      cases outcome with
      | removed _ _ _ settled' => exact ⟨_, rfl, kept, settled'⟩
      | missed _ settled' => exact ⟨_, rfl, kept, settled'⟩
    | inadmissible _ _ settled' => exact ⟨_, rfl, kept, settled'⟩
    | discarded _ _ _ settled' => exact ⟨_, rfl, kept, settled'⟩
    | rested _ _ _ _ _ _ outcome =>
      cases outcome with
      | rested _ _ _ _ settled' => exact ⟨_, rfl, kept, settled'⟩
      | refused settled' _ _ => exact ⟨_, rfl, kept, settled'⟩

def occupied (b : OrderBook) (n : Nat) : List Nat :=
  (List.range CAPACITY).filter fun s => (b.nodes n).occupancyMask.getLsbD s

def occupiedSpots (b : OrderBook) (nodes : List Nat) : List (Nat × Nat) :=
  nodes.flatMap fun n => (b.occupied n).map fun s => (n, s)

def liveIds (b : OrderBook) : List Nat :=
  (List.range b.slabSize).filter fun id => (b.locators id).node ≠ INVALID_INDEX

/-- Slab, nodes, levels and counters tell the same story. `cells` are the levels of each
    map in order of iteration, `chain` the nodes under each of them. -/
structure Consistent (b : OrderBook) (cells : Half → List Nat) (chain : Half → Nat → List Nat) : Prop where
  iterates : ∀ h, Walk (b.maps h).succ NIL (b.maps h).begin_ (cells h)
  chained : ∀ h, ∀ i ∈ cells h, Walk (fun n => (b.nodes n).next) INVALID_INDEX (b.level h i).head (chain h i)
  unshared : ((cells .bids).flatMap (chain .bids) ++ (cells .asks).flatMap (chain .asks)).Nodup
  bijection : Set.BijOn (fun id => ((b.locators id).node, (b.locators id).slot))
    {id | id ∈ b.liveIds} {spot | ∃ h, ∃ i ∈ cells h, spot ∈ b.occupiedSpots (chain h i)}
  ranged : ∀ id, (b.locators id).node ≠ INVALID_INDEX → id < b.slabSize
  shadowed : ∀ id ∈ b.liveIds, ∃ h, ∃ i ∈ cells h, ∃ o,
    ((b.locators id).node, (b.locators id).slot) ∈ b.occupiedSpots (chain h i) ∧
      b.orderAt ((b.locators id).node, (b.locators id).slot) = o ∧ o.id.toNat = id ∧
      (b.locators id).price = o.price ∧ (b.locators id).remaining = o.remaining ∧
      Half.ofSide (b.locators id).side = h ∧ Half.ofSide o.side = h ∧ (b.maps h).key i = o.price
  levels : ∀ h, ∀ i ∈ cells h, (b.maps h).key i = (b.level h i).price ∧ 1 ≤ (b.level h i).orderCount.toNat ∧
    (b.level h i).orderCount.toNat = (b.occupiedSpots (chain h i)).length ∧
    (b.level h i).totalQty.toNat = ((b.occupiedSpots (chain h i)).map fun spot => (b.orderAt spot).remaining.toNat).sum
  active : b.liveCount.toNat = b.liveIds.length

theorem occupied_perm (queued : Queued (b.nodes n) q) : q.Perm (b.occupied n) := by
  have once : (b.occupied n).Nodup := List.nodup_range.filter _
  rw [List.perm_ext_iff_of_nodup queued.distinct once]
  intro s
  rw [occupied, List.mem_filter, List.mem_range, queued.occupied]
  constructor
  · intro bit
    exact ⟨queued.lt_capacity ((queued.occupied s).mpr bit), bit⟩
  · exact And.right

theorem spots_perm_occupied (queued : ∀ n q, (n, q) ∈ chain → Queued (b.nodes n) q) :
    chain.spots.Perm (b.occupiedSpots (chain.map Prod.fst)) := by
  induction chain with
  | nil => exact List.Perm.refl _
  | cons block rest ih =>
    have here := (occupied_perm (queued block.1 block.2 List.mem_cons_self)).map fun s => (block.1, s)
    exact here.append (ih fun n q member => queued n q (List.mem_cons_of_mem _ member))

theorem Rep.spots_perm (rep : Rep b cap L) (member : i ∈ (L.tree h).inorder) :
    (L.chain h i).spots.Perm (b.occupiedSpots ((L.chain h i).map Prod.fst)) := by
  apply spots_perm_occupied
  intro n q inside
  exact rep.stock.queued n q (Layout.mem_blocks.mpr ⟨h, i, member, inside⟩)

theorem mem_liveIds {id : Nat} : id ∈ b.liveIds ↔ id < b.slabSize ∧ (b.locators id).node ≠ INVALID_INDEX := by
  simp [liveIds]

theorem Rep.entry_spot {id : Nat} (rep : Rep b cap L) (named : (b.locators id).node ≠ INVALID_INDEX) :
    ∃ h, ∃ i ∈ (L.tree h).inorder, ∃ spot ∈ (L.chain h i).spots, (b.orderAt spot).id.toNat = id ∧
      b.locators id = b.entryAt spot ∧ id < b.slabSize := by
  rcases rep.stock.live id named with ⟨spot, member, found⟩
  rcases mem_blocks_spots.mp member with ⟨h, i, inside, held⟩
  have posted := rep.stock.posted spot member
  rw [found] at posted
  exact ⟨h, i, inside, spot, held, found, posted.2, posted.1⟩

theorem Rep.home (rep : Rep b cap L) (member : i ∈ (L.tree h).inorder) {spot : Nat × Nat}
    (held : spot ∈ (L.chain h i).spots) :
    (b.orderAt spot).price = (b.maps h).key i ∧ Half.ofSide (b.orderAt spot).side = h :=
  (rep.levels h i member).home _ (List.mem_map.mpr ⟨spot, held, rfl⟩)

theorem Rep.liveIds_perm (rep : Rep b cap L) : (L.blocks.spots.map fun spot => (b.orderAt spot).id.toNat).Perm b.liveIds := by
  have once : b.liveIds.Nodup := List.nodup_range.filter _
  have distinct : (L.blocks.spots.map fun spot => (b.orderAt spot).id.toNat).Nodup := by
    apply rep.stock.spots_nodup.map_on
    intro spot member spot' member' same
    exact rep.stock.id_injective member member' (UInt64.toNat_inj.mp same)
  rw [List.perm_ext_iff_of_nodup distinct once]
  intro id
  rw [mem_liveIds, List.mem_map]
  constructor
  · intro found
    rcases found with ⟨spot, member, rfl⟩
    have posted := rep.stock.posted spot member
    refine ⟨posted.1, ?_⟩
    rw [posted.2]
    exact rep.stock.ne_invalid (rep.stock.lt_of_block (Chain.fst_mem_of_mem_spots member))
  · intro live
    rcases rep.stock.live id live.2 with ⟨spot, member, found⟩
    exact ⟨spot, member, found⟩

theorem Rep.bijection (rep : Rep b cap L) :
    Set.BijOn (fun id => ((b.locators id).node, (b.locators id).slot)) {id | id ∈ b.liveIds}
      {spot | ∃ h, ∃ i ∈ (L.tree h).inorder, spot ∈ b.occupiedSpots ((L.chain h i).map Prod.fst)} := by
  refine ⟨?_, ?_, ?_⟩
  · intro id live
    rcases rep.entry_spot (mem_liveIds.mp live).2 with ⟨h, i, member, spot, held, -, entry, -⟩
    refine ⟨h, i, member, (rep.spots_perm member).mem_iff.mp ?_⟩
    simp only [entry, entryAt]
    exact held
  · intro id live id' live' same
    rcases rep.entry_spot (mem_liveIds.mp live).2 with ⟨_, _, _, spot, _, found, entry, _⟩
    rcases rep.entry_spot (mem_liveIds.mp live').2 with ⟨_, _, _, spot', _, found', entry', _⟩
    simp only [entry, entry', entryAt, Prod.mk.eta] at same
    rw [← found, ← found', same]
  · intro spot occupied
    rcases occupied with ⟨h, i, member, inside⟩
    have held := (rep.spots_perm member).mem_iff.mpr inside
    have spotted := mem_blocks_spots.mpr ⟨h, i, member, held⟩
    have posted := rep.stock.posted spot spotted
    refine ⟨(b.orderAt spot).id.toNat, mem_liveIds.mpr ⟨posted.1, ?_⟩, ?_⟩
    · rw [posted.2]
      exact rep.stock.ne_invalid (rep.stock.lt_of_block (Chain.fst_mem_of_mem_spots spotted))
    · simp only [posted.2, entryAt]

theorem Settled.consistent (settled : Settled b cap ladders) : ∃ cells chain, Consistent b cells chain := by
  rcases settled.rep with ⟨L, rep, rfl⟩
  refine ⟨fun h => (L.tree h).inorder, fun h i => (L.chain h i).map Prod.fst, ?_, ?_, ?_, rep.bijection, ?_, ?_, ?_, ?_⟩
  · intro h
    exact (rep.valid h).sound.forward
  · intro h i member
    have level := rep.levels h i member
    rw [level.head]
    apply level.thread.walk
    intro inside
    exact rep.focus member |>.ne_invalid ((rep.focus member).mem_left inside) rfl
  · have distinct := (List.nodup_append.mp rep.stock.nodup).2.1
    rwa [Layout.blocks, List.map_append, Layout.half, Layout.half, List.map_flatMap, List.map_flatMap] at distinct
  · intro id named
    rcases rep.entry_spot named with ⟨_, _, _, _, _, _, _, range⟩
    exact range
  · intro id live
    rcases rep.entry_spot (mem_liveIds.mp live).2 with ⟨h, i, member, spot, held, found, entry, -⟩
    have home := rep.home member held
    refine ⟨h, i, member, b.orderAt spot, ?_, ?_, found, ?_, ?_, ?_, home.2, home.1.symm⟩
    · simp only [entry, entryAt]
      exact (rep.spots_perm member).mem_iff.mp held
    · simp only [entry, entryAt]
    · rw [entry]
      rfl
    · rw [entry]
      rfl
    · rw [entry]
      exact home.2
  · intro h i member
    have level := rep.levels h i member
    have perm := rep.spots_perm member
    have count := level.count_toNat (rep.focus member)
    have total := level.total_toNat (rep.focus member)
    rw [Chain.queue_length, perm.length_eq] at count
    refine ⟨level.named.symm, ?_, count, ?_⟩
    · rw [count, ← perm.length_eq, ← @Chain.queue_length b.nodes]
      exact List.length_pos_of_ne_nil (settled.inhabited h _ (List.mem_map.mpr ⟨i, member, rfl⟩))
    · rw [total, quantity, Chain.queue, List.map_map]
      exact (perm.map _).sum_nat
  · have short := rep.stock.spots_length
    rw [rep.stock.count, UInt64.toNat_ofNat', Nat.mod_eq_of_lt (by omega), ← rep.liveIds_perm.length_eq, List.length_map]

theorem reachable_settled {maxNodes idCapacity levelCapacity : Nat} (small : maxNodes * CAPACITY < 2 ^ 32)
    (reach : Transition.Reachable step (create maxNodes idCapacity levelCapacity) b) :
    ∃ ladders, Settled b (levelCapacity % 2 ^ 32) ladders ∧ Kept (create maxNodes idCapacity levelCapacity) b := by
  induction reach with
  | start => exact ⟨_, create_settled small idCapacity levelCapacity, Kept.refl _⟩
  | @next _ _ call _ _ taken ih =>
    rcases ih with ⟨ladders, settled, kept⟩
    rcases step_spec settled call with ⟨b', reply, ladders', again, kept', settled'⟩
    rw [taken] at again
    cases again
    exact ⟨ladders', settled', kept.trans kept'⟩

/-- In every run of a book the slab, the nodes, the levels and the counters agree, no
    defensive branch has been taken, and the next call returns. -/
theorem book_consistent {maxNodes idCapacity levelCapacity : Nat} (small : maxNodes * CAPACITY < 2 ^ 32)
    (reach : Transition.Reachable step (create maxNodes idCapacity levelCapacity) b) :
    (∃ cells chain, Consistent b cells chain) ∧ b.repairs = 0 ∧ ∀ call, ∃ b' reply, step call b = some (b', reply) := by
  rcases reachable_settled small reach with ⟨ladders, settled, kept⟩
  refine ⟨settled.consistent, kept.repairs, ?_⟩
  intro call
  rcases step_spec settled call with ⟨b', reply, _, returned, _, _⟩
  exact ⟨b', reply, returned⟩

def sellTen : Order := { id := 1, seq := 0, price := 100, quantity := 10, remaining := 10, side := 1, type := 0 }
def buyFive : Order := { id := 2, seq := 1, price := 100, quantity := 5, remaining := 5, side := 0, type := 0 }
def buyFour : Order := { id := 2, seq := 1, price := 100, quantity := 4, remaining := 4, side := 0, type := 0 }

theorem book_consistent_half_filled : ∃ b, Transition.run step [.add sellTen, .submit buyFive] (create 1 4 4) = some b ∧
    (∃ cells chain, Consistent b cells chain) ∧ b.repairs = 0 := by
  have returned : (Transition.run step [.add sellTen, .submit buyFive] (create 1 4 4)).isSome = true := by
    decide +kernel
  rcases Option.isSome_iff_exists.mp returned with ⟨b, reached⟩
  have small : 1 * CAPACITY < 2 ^ 32 := by decide
  have facts := book_consistent small (Transition.Reachable.start.run reached)
  exact ⟨b, reached, facts.1, facts.2.1⟩

end OrderBook

end Titan
