import Titan.Book.BookRuns

namespace Titan

open RedBlack Linked PinNode
open RBPriceIndex (NIL)

namespace OrderBook

variable {b b' : OrderBook} {cap : Nat} {L : Layout} {h : Half} {i : Nat} {ladders : Half → Ladder} {o : Order}

def activeOrders (b : OrderBook) : UInt64 := b.liveCount

def freeNodeCount (b : OrderBook) : UInt32 := UInt32.ofNat b.freeNodes.length

def chainOf (b : OrderBook) (h : Half) (i : Nat) : List Nat :=
  trace (fun n => (b.nodes n).next) INVALID_INDEX b.nodeCount (b.level h i).head

def chains (b : OrderBook) (h : Half) : List Nat := (b.maps h).iterate.flatMap (b.chainOf h)

/-- Every node is on the stack of free nodes or under one level, once. -/
structure Partitioned (b : OrderBook) (maxNodes : Nat) : Prop where
  levels : ∀ h, Walk (b.maps h).succ NIL (b.maps h).begin_ (b.maps h).iterate
  forward : ∀ h, ∀ i ∈ (b.maps h).iterate, Walk (fun n => (b.nodes n).next) INVALID_INDEX (b.level h i).head (b.chainOf h i)
  backward : ∀ h, ∀ i ∈ (b.maps h).iterate,
    Walk (fun n => (b.nodes n).prev) INVALID_INDEX (b.level h i).tail (b.chainOf h i).reverse
  partition : (b.freeNodes ++ (b.chains .bids ++ b.chains .asks)).Perm (List.range maxNodes)
  unreferenced : ∀ id, (b.locators id).node ≠ INVALID_INDEX → (b.locators id).node ∉ b.freeNodes
  reserved : b.freeNodes.length ≤ maxNodes
  idle : b.activeOrders = 0 → b.freeNodeCount.toNat = maxNodes

theorem Rep.iterate_eq (rep : Rep b cap L) (h : Half) : (b.maps h).iterate = (L.tree h).inorder :=
  (rep.valid h).iterate_eq

theorem Rep.invalid_not_mem (rep : Rep b cap L) (member : i ∈ (L.tree h).inorder) :
    INVALID_INDEX ∉ (L.chain h i).map Prod.fst := by
  intro inside
  have stock := rep.focus member
  exact stock.ne_invalid (stock.mem_left inside) rfl

theorem Rep.chain_walk (rep : Rep b cap L) (member : i ∈ (L.tree h).inorder) :
    Walk (fun n => (b.nodes n).next) INVALID_INDEX (b.level h i).head ((L.chain h i).map Prod.fst) := by
  rw [(rep.levels h i member).head]
  exact (rep.levels h i member).thread.walk (rep.invalid_not_mem member)

theorem Rep.chain_walk_back (rep : Rep b cap L) (member : i ∈ (L.tree h).inorder) :
    Walk (fun n => (b.nodes n).prev) INVALID_INDEX (b.level h i).tail ((L.chain h i).map Prod.fst).reverse := by
  rw [(rep.levels h i member).tail]
  exact (rep.levels h i member).thread.walk_back (rep.invalid_not_mem member)

theorem Rep.chainOf_eq (rep : Rep b cap L) (member : i ∈ (L.tree h).inorder) :
    b.chainOf h i = (L.chain h i).map Prod.fst := by
  apply (rep.chain_walk member).trace_eq
  have total := (rep.focus member).pool.length_eq
  rw [List.length_append, List.map_append, List.length_append, List.length_range] at total
  omega

theorem Rep.chains_eq (rep : Rep b cap L) (h : Half) : b.chains h = (L.half h).map Prod.fst := by
  rw [chains, rep.iterate_eq h, Layout.half, List.map_flatMap, List.flatMap, List.flatMap]
  congr 1
  apply List.map_congr_left
  intro i member
  exact rep.chainOf_eq member

theorem Settled.freeNodes_of_idle (settled : Settled b cap ladders) (idle : b.liveCount = 0) :
    b.freeNodes.length = b.nodeCount := by
  rcases settled.rep with ⟨L, rep, rfl⟩
  have none : L.blocks.spots = [] := by
    have count := rep.stock.count
    have short := rep.stock.spots_length
    rw [idle, ← UInt64.toNat_inj, UInt64.toNat_zero, UInt64.toNat_ofNat', Nat.mod_eq_of_lt (by omega)] at count
    exact List.length_eq_zero_iff.mp count.symm
  have bare : L.blocks = [] := by
    apply List.eq_nil_iff_forall_not_mem.mpr
    intro block held
    rcases Layout.mem_blocks.mp held with ⟨h, i, member, -⟩
    apply settled.inhabited h _ (List.mem_map.mpr ⟨i, member, rfl⟩)
    apply List.eq_nil_iff_forall_not_mem.mpr
    intro o queued
    rcases List.mem_map.mp queued with ⟨spot, inside, -⟩
    have found := mem_blocks_spots.mpr ⟨h, i, member, inside⟩
    rw [none] at found
    cases found
  have total := rep.stock.pool.length_eq
  rwa [bare, List.map_nil, List.append_nil, List.length_range] at total

theorem Settled.partitioned (settled : Settled b cap ladders) : Partitioned b b.nodeCount := by
  have idle := settled.freeNodes_of_idle
  rcases settled.rep with ⟨L, rep, rfl⟩
  have pool := rep.stock.pool
  have low : b.freeNodes.length ≤ b.nodeCount := by
    have total := pool.length_eq
    rw [List.length_append, List.length_range] at total
    omega
  refine ⟨?_, ?_, ?_, ?_, ?_, low, ?_⟩
  · intro h
    rw [rep.iterate_eq h]
    exact (rep.valid h).sound.forward
  · intro h i member
    rw [rep.iterate_eq h] at member
    rw [rep.chainOf_eq member]
    exact rep.chain_walk member
  · intro h i member
    rw [rep.iterate_eq h] at member
    rw [rep.chainOf_eq member]
    exact rep.chain_walk_back member
  · rw [rep.chains_eq, rep.chains_eq, ← List.map_append]
    exact pool
  · intro id named
    rcases rep.stock.live id named with ⟨spot, held, rfl⟩
    have used := Chain.fst_mem_of_mem_spots held
    rw [(rep.stock.posted spot held).2]
    intro free
    exact (List.nodup_append.mp rep.stock.nodup).2.2 _ free _ used rfl
  · intro none
    have small := rep.stock.small
    rw [freeNodeCount, UInt32.toNat_ofNat', idle none, Nat.mod_eq_of_lt]
    simp only [CAPACITY] at small
    omega

/-- In every run of a book no node is lost, shared or freed twice. -/
theorem nodes_partitioned {maxNodes idCapacity levelCapacity : Nat} (small : maxNodes * CAPACITY < 2 ^ 32)
    (reach : Transition.Reachable step (create maxNodes idCapacity levelCapacity) b) : Partitioned b maxNodes := by
  rcases reachable_settled small reach with ⟨ladders, settled, kept⟩
  have partitioned := settled.partitioned
  rwa [kept.nodeCount] at partitioned

/-- Sixty-five bids at one price, which take two nodes, a bid and an offer at others, and a cancel. -/
def fourNodes : List Call :=
  (List.range 65).map (fun k =>
    .add { id := UInt64.ofNat k, seq := 0, price := 100, quantity := 1, remaining := 1, side := 0, type := 0 }) ++
  [.add { id := 65, seq := 0, price := 99, quantity := 1, remaining := 1, side := 0, type := 0 },
    .add { id := 66, seq := 0, price := 101, quantity := 1, remaining := 1, side := 1, type := 0 }, .cancel 3]

theorem nodes_partitioned_four_nodes : ∃ b, Transition.run step fourNodes (create 5 0 4) = some b ∧ b.freeNodes = [4] ∧
    (b.maps .bids).iterate.length = 2 ∧ (b.maps .asks).iterate.length = 1 ∧ Partitioned b 5 := by
  have ran : (Transition.run step fourNodes (create 5 0 4)).map (fun b => decide (b.freeNodes = [4] ∧
      (b.maps .bids).iterate.length = 2 ∧ (b.maps .asks).iterate.length = 1)) = some true := by
    decide +kernel
  rcases Option.map_eq_some_iff.mp ran with ⟨b, reached, facts⟩
  rcases of_decide_eq_true facts with ⟨free, bids, asks⟩
  have small : 5 * CAPACITY < 2 ^ 32 := by decide
  exact ⟨b, reached, free, bids, asks, nodes_partitioned small (Transition.Reachable.start.run reached)⟩

end OrderBook

end Titan
