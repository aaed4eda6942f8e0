import Titan.Book.OrderBook
import Mathlib.Algebra.Ring.Nat
import Mathlib.Data.List.Perm.Subperm

namespace Titan

open Linked PinNode

abbrev Chain := List (Nat × List Nat)

namespace Chain

def spots (chain : Chain) : List (Nat × Nat) := chain.flatMap fun block => block.2.map fun s => (block.1, s)

def queue (nodes : Nat → PinNode) (chain : Chain) : List Order :=
  chain.spots.map fun spot => (nodes spot.1).slots spot.2

variable {nodes nodes' : Nat → PinNode} {chain chain' : Chain}

theorem spots_cons (n : Nat) (q : List Nat) : spots ((n, q) :: chain) = q.map (fun s => (n, s)) ++ spots chain := rfl

theorem spots_append : spots (chain ++ chain') = spots chain ++ spots chain' := List.flatMap_append

theorem spots_perm (perm : chain.Perm chain') : (spots chain).Perm (spots chain') := perm.flatMap_right _

theorem mem_spots {n s : Nat} : (n, s) ∈ spots chain ↔ ∃ q, (n, q) ∈ chain ∧ s ∈ q := by
  simp only [spots, List.mem_flatMap, List.mem_map, Prod.mk.injEq]
  constructor
  · intro found
    rcases found with ⟨block, member, slot, inside, same, rfl⟩
    rw [← same]
    exact ⟨block.2, member, inside⟩
  · intro found
    rcases found with ⟨q, member, inside⟩
    exact ⟨(n, q), member, s, inside, rfl, rfl⟩

theorem fst_mem_of_mem_spots {spot : Nat × Nat} (member : spot ∈ spots chain) : spot.1 ∈ chain.map Prod.fst := by
  rcases mem_spots.mp (show (spot.1, spot.2) ∈ spots chain from member) with ⟨q, block, _⟩
  exact List.mem_map.mpr ⟨_, block, rfl⟩

theorem queue_append : queue nodes (chain ++ chain') = queue nodes chain ++ queue nodes chain' := by
  simp only [queue, spots_append, List.map_append]

theorem queue_cons (n : Nat) (q : List Nat) :
    queue nodes ((n, q) :: chain) = q.map (nodes n).slots ++ queue nodes chain := by
  simp only [queue, spots_cons, List.map_append, List.map_map]
  rfl

theorem queue_length : (queue nodes chain).length = (spots chain).length := List.length_map _

theorem queue_congr (same : ∀ spot ∈ spots chain, (nodes' spot.1).slots spot.2 = (nodes spot.1).slots spot.2) :
    queue nodes' chain = queue nodes chain := List.map_congr_left same

theorem queue_congr_nodes (same : ∀ n ∈ chain.map Prod.fst, nodes' n = nodes n) :
    queue nodes' chain = queue nodes chain := by
  apply queue_congr
  intro spot member
  rw [same _ (fst_mem_of_mem_spots member)]

end Chain

namespace OrderBook

def orderAt (b : OrderBook) (spot : Nat × Nat) : Order := (b.nodes spot.1).slots spot.2

def entryAt (b : OrderBook) (spot : Nat × Nat) : SlabEntry :=
  { node := spot.1, slot := spot.2, price := (b.orderAt spot).price, remaining := (b.orderAt spot).remaining,
    side := (b.orderAt spot).side }

/-- Node pool and slab hold exactly the listed nodes and their orders. -/
structure Stock (b : OrderBook) (blocks : Chain) : Prop where
  small : b.nodeCount * CAPACITY < 2 ^ 32
  pool : (b.freeNodes ++ blocks.map Prod.fst).Perm (List.range b.nodeCount)
  queued : ∀ n q, (n, q) ∈ blocks → Queued (b.nodes n) q
  posted : ∀ spot ∈ blocks.spots, (b.orderAt spot).id.toNat < b.slabSize ∧
    b.locators (b.orderAt spot).id.toNat = b.entryAt spot
  live : ∀ id, (b.locators id).node ≠ INVALID_INDEX → ∃ spot ∈ blocks.spots, (b.orderAt spot).id.toNat = id
  count : b.liveCount = UInt64.ofNat blocks.spots.length

variable {b b' : OrderBook} {blocks rest : Chain} {n s : Nat} {q l₁ l₂ : List Nat}

namespace Stock

theorem perm {blocks' : Chain} (stock : Stock b blocks) (same : blocks.Perm blocks') : Stock b blocks' where
  small := stock.small
  pool := ((same.map Prod.fst).symm.append_left b.freeNodes).trans stock.pool
  queued n q member := stock.queued n q (same.mem_iff.mpr member)
  posted spot member := stock.posted spot ((Chain.spots_perm same).mem_iff.mpr member)
  live id named := by
    rcases stock.live id named with ⟨spot, member, found⟩
    exact ⟨spot, (Chain.spots_perm same).mem_iff.mp member, found⟩
  count := by rw [stock.count, (Chain.spots_perm same).length_eq]

theorem nodup (stock : Stock b blocks) : (b.freeNodes ++ blocks.map Prod.fst).Nodup :=
  stock.pool.nodup_iff.mpr List.nodup_range

theorem lt_of_mem (stock : Stock b blocks) (member : n ∈ b.freeNodes ++ blocks.map Prod.fst) : n < b.nodeCount :=
  List.mem_range.mp (stock.pool.mem_iff.mp member)

theorem lt_of_block (stock : Stock b blocks) (member : n ∈ blocks.map Prod.fst) : n < b.nodeCount :=
  stock.lt_of_mem (List.mem_append_right _ member)

theorem ne_invalid (stock : Stock b blocks) (low : n < b.nodeCount) : n ≠ INVALID_INDEX := by
  intro same
  have small := stock.small
  simp only [INVALID_INDEX, CAPACITY] at same small
  omega

theorem length_le_capacity {node : PinNode} (queued : Queued node q) : q.length ≤ CAPACITY := by
  rw [← List.length_range (n := CAPACITY)]
  apply List.Subperm.length_le
  apply List.subperm_of_subset queued.distinct
  intro s member
  exact List.mem_range.mpr (queued.lt_capacity member)

theorem spots_length_le (stock : Stock b blocks) : blocks.spots.length ≤ b.nodeCount * CAPACITY := by
  have each : ∀ (l : Chain), (∀ n q, (n, q) ∈ l → Queued (b.nodes n) q) → l.spots.length ≤ l.length * CAPACITY := by
    intro l queued
    induction l with
    | nil => exact Nat.zero_le _
    | cons block l ih =>
      have here := length_le_capacity (queued block.1 block.2 List.mem_cons_self)
      have later := ih fun n q member => queued n q (List.mem_cons_of_mem _ member)
      rw [Chain.spots_cons, List.length_append, List.length_map, List.length_cons, Nat.add_mul, Nat.one_mul]
      omega
  have total := stock.pool.length_eq
  rw [List.length_append, List.length_map, List.length_range] at total
  calc blocks.spots.length ≤ blocks.length * CAPACITY := each blocks stock.queued
    _ ≤ b.nodeCount * CAPACITY := Nat.mul_le_mul_right _ (by omega)

theorem spots_length (stock : Stock b blocks) : blocks.spots.length < 2 ^ 32 :=
  Nat.lt_of_le_of_lt stock.spots_length_le stock.small

theorem congr (b' : OrderBook) (stock : Stock b blocks) (nodeCount : b'.nodeCount = b.nodeCount) (freeNodes : b'.freeNodes = b.freeNodes)
    (slabSize : b'.slabSize = b.slabSize) (locators : b'.locators = b.locators) (liveCount : b'.liveCount = b.liveCount)
    (slots : ∀ n q, (n, q) ∈ blocks → (b'.nodes n).slots = (b.nodes n).slots ∧ Queued (b'.nodes n) q) :
    Stock b' blocks := by
  have orders : ∀ spot ∈ blocks.spots, b'.orderAt spot = b.orderAt spot := by
    intro spot member
    rcases Chain.mem_spots.mp (show (spot.1, spot.2) ∈ blocks.spots from member) with ⟨q, block, _⟩
    rw [orderAt, (slots _ _ block).1, orderAt]
  refine ⟨by rw [nodeCount]; exact stock.small, by rw [freeNodes, nodeCount]; exact stock.pool,
    fun n q member => (slots n q member).2, ?_, ?_, by rw [liveCount]; exact stock.count⟩
  · intro spot member
    rw [entryAt, orders spot member, slabSize, locators]
    exact stock.posted spot member
  · intro id named
    rw [locators] at named
    rcases stock.live id named with ⟨spot, member, found⟩
    exact ⟨spot, member, by rw [orders spot member]; exact found⟩

theorem setNode {node : PinNode} (stock : Stock b blocks) (slots : node.slots = (b.nodes n).slots)
    (queued : ∀ q, Queued (b.nodes n) q → Queued node q) : Stock (b.setNode n node) blocks := by
  refine stock.congr (b.setNode n node) rfl rfl rfl rfl rfl ?_
  intro m q member
  show (Function.update b.nodes n node m).slots = _ ∧ Queued (Function.update b.nodes n node m) q
  by_cases same : m = n
  · rw [same, Function.update_self]
    exact ⟨slots, queued q (same ▸ stock.queued m q member)⟩
  · rw [Function.update_of_ne same]
    exact ⟨rfl, stock.queued m q member⟩

theorem setNext (stock : Stock b blocks) (n next : Nat) : Stock (b.setNode n ((b.nodes n).setNext next)) blocks :=
  stock.setNode rfl fun _ queued => queued.of_fields rfl rfl rfl rfl rfl

theorem setPrev (stock : Stock b blocks) (n prev : Nat) : Stock (b.setNode n ((b.nodes n).setPrev prev)) blocks :=
  stock.setNode rfl fun _ queued => queued.of_fields rfl rfl rfl rfl rfl

theorem fst_not_mem (stock : Stock b ((n, q) :: rest)) : n ∉ rest.map Prod.fst := by
  have distinct := (List.nodup_append.mp stock.nodup).2.1
  rw [List.map_cons, List.nodup_cons] at distinct
  exact distinct.1

theorem queued_update {node : PinNode} {q' : List Nat} (stock : Stock b ((n, q) :: rest)) (queued : Queued node q')
    (nodes : b'.nodes = Function.update b.nodes n node) (m : Nat) (l : List Nat) (member : (m, l) ∈ (n, q') :: rest) :
    Queued (b'.nodes m) l := by
  rw [nodes]
  rcases List.mem_cons.mp member with same | other
  · cases same
    rw [Function.update_self]
    exact queued
  · have apart : m ≠ n := fun same => stock.fst_not_mem (same ▸ List.mem_map.mpr ⟨_, other, rfl⟩)
    rw [Function.update_of_ne apart]
    exact stock.queued m l (List.mem_cons_of_mem _ other)

theorem ne_of_mem_spots (stock : Stock b ((n, q) :: rest)) {spot : Nat × Nat} (member : spot ∈ rest.spots) :
    spot.1 ≠ n := by
  intro same
  exact stock.fst_not_mem (same ▸ Chain.fst_mem_of_mem_spots member)

theorem id_injective (stock : Stock b blocks) {spot spot' : Nat × Nat} (member : spot ∈ blocks.spots)
    (member' : spot' ∈ blocks.spots) (same : (b.orderAt spot).id = (b.orderAt spot').id) : spot = spot' := by
  have entry := (stock.posted spot member).2
  rw [same, (stock.posted spot' member').2] at entry
  simp only [entryAt, SlabEntry.mk.injEq] at entry
  exact Prod.ext entry.1.symm entry.2.1.symm

theorem spots_nodup (stock : Stock b blocks) : blocks.spots.Nodup := by
  rw [Chain.spots, List.nodup_flatMap]
  constructor
  · intro block member
    have distinct := (stock.queued block.1 block.2 member).distinct
    exact distinct.map fun s s' same => (Prod.mk.inj same).2
  · have distinct := (List.nodup_append.mp stock.nodup).2.1
    rw [List.Nodup, List.pairwise_map] at distinct
    apply distinct.imp
    intro block block' apart spot member member'
    rw [List.mem_map] at member member'
    rcases member with ⟨s, _, rfl⟩
    rcases member' with ⟨s', _, same⟩
    exact apart (Prod.mk.inj same).1.symm

theorem spots_cons_perm (n s : Nat) (l₁ l₂ : List Nat) (rest : Chain) :
    (Chain.spots ((n, l₁ ++ s :: l₂) :: rest)).Perm ((n, s) :: Chain.spots ((n, l₁ ++ l₂) :: rest)) := by
  rw [Chain.spots_cons, Chain.spots_cons, List.map_append, List.map_cons, List.map_append]
  exact List.perm_middle.append_right _

theorem removed {node : PinNode} (stock : Stock b ((n, l₁ ++ s :: l₂) :: rest)) (queued : Queued node (l₁ ++ l₂))
    (slots : ∀ i ∈ l₁ ++ l₂, node.slots i = (b.nodes n).slots i) (nodes : b'.nodes = Function.update b.nodes n node)
    (locators : b'.locators = Function.update b.locators (b.orderAt (n, s)).id.toNat
      { b.entryAt (n, s) with node := INVALID_INDEX })
    (liveCount : b'.liveCount = b.liveCount - 1) (nodeCount : b'.nodeCount = b.nodeCount)
    (freeNodes : b'.freeNodes = b.freeNodes) (slabSize : b'.slabSize = b.slabSize) :
    Stock b' ((n, l₁ ++ l₂) :: rest) := by
  have perm := spots_cons_perm n s l₁ l₂ rest
  have distinct := perm.nodup_iff.mp stock.spots_nodup
  rw [List.nodup_cons] at distinct
  have orders : ∀ spot ∈ Chain.spots ((n, l₁ ++ l₂) :: rest), b'.orderAt spot = b.orderAt spot := by
    intro spot member
    rw [Chain.spots_cons, List.mem_append, List.mem_map] at member
    rcases member with ⟨i, inside, rfl⟩ | other
    · rw [orderAt, nodes, Function.update_self]
      exact slots i inside
    · rw [orderAt, nodes, Function.update_of_ne (stock.ne_of_mem_spots other)]
      rfl
  have old : ∀ spot ∈ Chain.spots ((n, l₁ ++ l₂) :: rest), spot ∈ Chain.spots ((n, l₁ ++ s :: l₂) :: rest) :=
    fun spot member => perm.mem_iff.mpr (List.mem_cons_of_mem _ member)
  have here : (n, s) ∈ Chain.spots ((n, l₁ ++ s :: l₂) :: rest) := perm.mem_iff.mpr List.mem_cons_self
  refine ⟨by rw [nodeCount]; exact stock.small, by rw [freeNodes, nodeCount]; exact stock.pool, ?_, ?_, ?_, ?_⟩
  · exact stock.queued_update queued nodes
  · intro spot member
    have apart : (b.orderAt spot).id.toNat ≠ (b.orderAt (n, s)).id.toNat := by
      intro same
      have equal := stock.id_injective (old spot member) here (UInt64.toNat_inj.mp same)
      exact distinct.1 (equal ▸ member)
    rw [entryAt, orders spot member, slabSize, locators, Function.update_of_ne apart]
    exact stock.posted spot (old spot member)
  · intro id named
    rw [locators] at named
    by_cases same : id = (b.orderAt (n, s)).id.toNat
    · rw [same, Function.update_self] at named
      exact absurd rfl named
    · rw [Function.update_of_ne same] at named
      rcases stock.live id named with ⟨spot, member, found⟩
      rcases List.mem_cons.mp (perm.mem_iff.mp member) with gone | kept
      · rw [gone] at found
        exact absurd found.symm same
      · exact ⟨spot, kept, by rw [orders spot kept]; exact found⟩
  · rw [liveCount, stock.count, perm.length_eq, List.length_cons, UInt64.ofNat_add]
    exact UInt64.add_sub_cancel _ _

theorem inserted {node : PinNode} {o : Order} (stock : Stock b ((n, q) :: rest)) (queued : Queued node (q ++ [s]))
    (fresh : s ∉ q) (slots : node.slots = Function.update (b.nodes n).slots s o)
    (unused : (b.locators o.id.toNat).node = INVALID_INDEX) (within : o.id.toNat < b.slabSize)
    (nodes : b'.nodes = Function.update b.nodes n node)
    (locators : b'.locators = Function.update b.locators o.id.toNat
      { node := n, slot := s, price := o.price, remaining := o.remaining, side := o.side })
    (liveCount : b'.liveCount = b.liveCount + 1) (nodeCount : b'.nodeCount = b.nodeCount)
    (freeNodes : b'.freeNodes = b.freeNodes) (slabSize : b'.slabSize = b.slabSize) :
    Stock b' ((n, q ++ [s]) :: rest) := by
  have perm : (Chain.spots ((n, q ++ [s]) :: rest)).Perm ((n, s) :: Chain.spots ((n, q) :: rest)) := by
    have moved := spots_cons_perm n s q [] rest
    rwa [List.append_nil] at moved
  have here : b'.orderAt (n, s) = o := by
    rw [orderAt, nodes, Function.update_self, slots, Function.update_self]
  have orders : ∀ spot ∈ Chain.spots ((n, q) :: rest), b'.orderAt spot = b.orderAt spot := by
    intro spot member
    rw [Chain.spots_cons, List.mem_append, List.mem_map] at member
    rcases member with ⟨i, inside, rfl⟩ | other
    · have apart : i ≠ s := fun same => fresh (same ▸ inside)
      rw [orderAt, nodes, Function.update_self, slots, Function.update_of_ne apart]
      rfl
    · rw [orderAt, nodes, Function.update_of_ne (stock.ne_of_mem_spots other)]
      rfl
  refine ⟨by rw [nodeCount]; exact stock.small, by rw [freeNodes, nodeCount]; exact stock.pool, ?_, ?_, ?_, ?_⟩
  · exact stock.queued_update queued nodes
  · intro spot member
    rcases List.mem_cons.mp (perm.mem_iff.mp member) with rfl | other
    · rw [entryAt, here, slabSize, locators, Function.update_self]
      exact ⟨within, rfl⟩
    · have posted := stock.posted spot other
      have named : (b.locators (b.orderAt spot).id.toNat).node ≠ INVALID_INDEX := by
        rw [posted.2]
        exact stock.ne_invalid (stock.lt_of_block (Chain.fst_mem_of_mem_spots other))
      have apart : (b.orderAt spot).id.toNat ≠ o.id.toNat := by
        intro same
        rw [same] at named
        exact named unused
      rw [entryAt, orders spot other, slabSize, locators, Function.update_of_ne apart]
      exact posted
  · intro id named
    rw [locators] at named
    by_cases same : id = o.id.toNat
    · exact ⟨(n, s), perm.mem_iff.mpr List.mem_cons_self, by rw [here, same]⟩
    · rw [Function.update_of_ne same] at named
      rcases stock.live id named with ⟨spot, member, found⟩
      exact ⟨spot, perm.mem_iff.mpr (List.mem_cons_of_mem _ member), by rw [orders spot member]; exact found⟩
  · rw [liveCount, stock.count, perm.length_eq, List.length_cons, UInt64.ofNat_add]
    rfl

theorem refilled {node : PinNode} {r : Qty} (stock : Stock b ((n, l₁ ++ s :: l₂) :: rest))
    (queued : Queued node (l₁ ++ s :: l₂))
    (slots : node.slots = Function.update (b.nodes n).slots s ((b.orderAt (n, s)).withRemaining r))
    (nodes : b'.nodes = Function.update b.nodes n node)
    (locators : b'.locators = Function.update b.locators (b.orderAt (n, s)).id.toNat
      { b.entryAt (n, s) with remaining := r })
    (liveCount : b'.liveCount = b.liveCount) (nodeCount : b'.nodeCount = b.nodeCount)
    (freeNodes : b'.freeNodes = b.freeNodes) (slabSize : b'.slabSize = b.slabSize) :
    Stock b' ((n, l₁ ++ s :: l₂) :: rest) := by
  have inside : (n, s) ∈ Chain.spots ((n, l₁ ++ s :: l₂) :: rest) :=
    (spots_cons_perm n s l₁ l₂ rest).mem_iff.mpr List.mem_cons_self
  have here : b'.orderAt (n, s) = (b.orderAt (n, s)).withRemaining r := by
    rw [orderAt, nodes, Function.update_self, slots, Function.update_self]
  have elsewhere : ∀ spot, spot ≠ (n, s) → b'.orderAt spot = b.orderAt spot := by
    intro spot apart
    rw [orderAt, nodes]
    by_cases same : spot.1 = n
    · have other : spot.2 ≠ s := fun slot => apart (Prod.ext same slot)
      rw [same, Function.update_self, slots, Function.update_of_ne other, orderAt, same]
    · rw [Function.update_of_ne same]
      rfl
  have ids : ∀ spot, (b'.orderAt spot).id = (b.orderAt spot).id := by
    intro spot
    by_cases same : spot = (n, s)
    · rw [same, here]
      rfl
    · rw [elsewhere spot same]
  refine ⟨by rw [nodeCount]; exact stock.small, by rw [freeNodes, nodeCount]; exact stock.pool, ?_, ?_, ?_, ?_⟩
  · exact stock.queued_update queued nodes
  · intro spot member
    rw [ids, slabSize, locators]
    by_cases same : spot = (n, s)
    · rw [same, Function.update_self]
      refine ⟨(stock.posted (n, s) inside).1, ?_⟩
      simp only [entryAt, here]
      rfl
    · have apart : (b.orderAt spot).id.toNat ≠ (b.orderAt (n, s)).id.toNat := fun equal =>
        same (stock.id_injective member inside (UInt64.toNat_inj.mp equal))
      rw [Function.update_of_ne apart, entryAt, elsewhere spot same]
      exact stock.posted spot member
  · intro id named
    have before : (b.locators id).node ≠ INVALID_INDEX := by
      rw [locators] at named
      by_cases same : id = (b.orderAt (n, s)).id.toNat
      · rw [same, (stock.posted (n, s) inside).2]
        rw [same, Function.update_self] at named
        exact named
      · rwa [Function.update_of_ne same] at named
    rcases stock.live id before with ⟨spot, member, found⟩
    exact ⟨spot, member, by rw [ids]; exact found⟩
  · rw [liveCount]
    exact stock.count

theorem grown {node : PinNode} (stock : Stock b blocks) (fresh : n ∉ blocks.map Prod.fst)
    (stack : b.freeNodes = n :: b'.freeNodes) (queued : Queued node []) (nodes : b'.nodes = Function.update b.nodes n node)
    (locators : b'.locators = b.locators) (liveCount : b'.liveCount = b.liveCount)
    (nodeCount : b'.nodeCount = b.nodeCount) (slabSize : b'.slabSize = b.slabSize) : Stock b' ((n, []) :: blocks) := by
  have other : ∀ m ∈ blocks.map Prod.fst, m ≠ n := fun m member same => fresh (same ▸ member)
  have orders : ∀ spot ∈ blocks.spots, b'.orderAt spot = b.orderAt spot := by
    intro spot member
    rw [orderAt, nodes, Function.update_of_ne (other _ (Chain.fst_mem_of_mem_spots member))]
    rfl
  refine ⟨by rw [nodeCount]; exact stock.small, ?_, ?_, ?_, ?_, by rw [liveCount]; exact stock.count⟩
  · have pool := stock.pool
    rw [stack] at pool
    rw [nodeCount]
    exact List.perm_middle.trans pool
  · intro m q member
    rw [nodes]
    rcases List.mem_cons.mp member with same | inside
    · cases same
      rw [Function.update_self]
      exact queued
    · rw [Function.update_of_ne (other m (List.mem_map.mpr ⟨_, inside, rfl⟩))]
      exact stock.queued m q inside
  · intro spot member
    rw [entryAt, orders spot member, slabSize, locators]
    exact stock.posted spot member
  · intro id named
    rw [locators] at named
    rcases stock.live id named with ⟨spot, member, found⟩
    exact ⟨spot, member, by rw [orders spot member]; exact found⟩

end Stock

/-- `b'` differs from `b` at most in what is not in `blocks` and not a level. -/
structure Frame (blocks : Chain) (b b' : OrderBook) : Prop where
  nodes : ∀ n ∈ blocks.map Prod.fst, b'.nodes n = b.nodes n
  maps : b'.maps = b.maps
  nodeCount : b'.nodeCount = b.nodeCount
  slabSize : b'.slabSize = b.slabSize
  repairs : b'.repairs = b.repairs

theorem Frame.refl (blocks : Chain) (b : OrderBook) : Frame blocks b b := ⟨fun _ _ => rfl, rfl, rfl, rfl, rfl⟩

theorem Frame.trans {b'' : OrderBook} (first : Frame blocks b b') (second : Frame blocks b' b'') : Frame blocks b b'' where
  nodes n member := (second.nodes n member).trans (first.nodes n member)
  maps := second.maps.trans first.maps
  nodeCount := second.nodeCount.trans first.nodeCount
  slabSize := second.slabSize.trans first.slabSize
  repairs := second.repairs.trans first.repairs

theorem allocNode_nil (exhausted : b.freeNodes = []) : b.allocNode = (b, INVALID_INDEX) := by
  rw [allocNode, exhausted]

theorem allocNode_cons {free : List Nat} (stock : Stock b blocks) (stack : b.freeNodes = n :: free) :
    ∃ b', b.allocNode = (b', n) ∧ Stock b' ((n, []) :: blocks) ∧ Frame blocks b b' ∧
      b'.nodes = Function.update b.nodes n (b.nodes n).reset ∧ b'.locators = b.locators ∧ n ∉ blocks.map Prod.fst ∧
      n ≠ INVALID_INDEX := by
  have distinct := stock.nodup
  rw [stack, List.cons_append, List.nodup_cons, List.mem_append, not_or] at distinct
  have low : n < b.nodeCount := stock.lt_of_mem (by rw [stack]; simp)
  refine ⟨({ b with freeNodes := free } : OrderBook).setNode n (b.nodes n).reset, by rw [allocNode, stack],
    stock.grown distinct.1.2 stack (reset_queued _) rfl rfl rfl rfl rfl, ⟨?_, rfl, rfl, rfl, rfl⟩, rfl, rfl,
    distinct.1.2, stock.ne_invalid low⟩
  intro m member
  have apart : m ≠ n := fun same => distinct.1.2 (same ▸ member)
  exact Function.update_of_ne apart ..

theorem freeNode_spec (stock : Stock b ((n, []) :: blocks)) :
    b.freeNode n = { b with freeNodes := n :: b.freeNodes } ∧ Stock (b.freeNode n) blocks ∧
      Frame blocks b (b.freeNode n) ∧ (b.freeNode n).nodes = b.nodes := by
  have low : n < b.nodeCount := stock.lt_of_block List.mem_cons_self
  have freed : b.freeNode n = { b with freeNodes := n :: b.freeNodes } := by rw [freeNode, if_neg (Nat.not_le.mpr low)]
  rw [freed]
  refine ⟨rfl, ⟨stock.small, ?_, ?_, stock.posted, stock.live, stock.count⟩, ⟨fun _ _ => rfl, rfl, rfl, rfl, rfl⟩, rfl⟩
  · exact List.perm_middle.symm.trans stock.pool
  · intro m q member
    exact stock.queued m q (List.mem_cons_of_mem _ member)

end OrderBook

end Titan
