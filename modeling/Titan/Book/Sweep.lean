import Titan.Book.LevelOps
import Titan.Book.Ladder

namespace Titan

open Linked PinNode OrderBook

namespace Matcher

variable {b b' : OrderBook} {h : Half} {price : PriceTick} {lvl : PriceLevel} {chain others rest : Chain}
  {n s : Nat} {q : List Nat}

theorem dropMaker_spec (node : PinNode) (lvl' : PriceLevel) (stock : Stock b ((n, s :: q) :: (rest ++ others)))
    (level : Level b.nodes h price lvl ((n, s :: q) :: rest)) (queued : Queued node (s :: q))
    (slots : ∀ i, i ≠ s → node.slots i = (b.nodes n).slots i) (next : node.next = (b.nodes n).next)
    (prev : node.prev = (b.nodes n).prev) (named : lvl'.price = lvl.price) (head : lvl'.head = lvl.head)
    (tail : lvl'.tail = lvl.tail) (count : lvl'.orderCount = lvl.orderCount)
    (total : lvl'.totalQty = lvl.totalQty - (b.orderAt (n, s)).remaining.toUInt64) :
    ∃ b' lvl'', dropMaker (b.setNode n node) lvl' n s (b.orderAt (n, s)).id = (b', lvl'') ∧
      Stock b' ((n, q) :: (rest ++ others)) ∧ Level b'.nodes h price lvl'' ((n, q) :: rest) ∧
      Chain.queue b.nodes ((n, s :: q) :: rest) = b.orderAt (n, s) :: Chain.queue b'.nodes ((n, q) :: rest) ∧
      Frame others b b' := by
  have spot : (n, s) ∈ Chain.spots ((n, s :: q) :: (rest ++ others)) := by
    rw [Chain.spots_cons]
    exact List.mem_cons_self
  rcases stock.posted (n, s) spot with ⟨within, entry⟩
  have low : n < b.nodeCount := stock.lt_of_block List.mem_cons_self
  have alive : (b.locators (b.orderAt (n, s)).id.toNat).node ≠ INVALID_INDEX := by
    rw [entry]
    exact stock.ne_invalid low
  have fresh := stock.fst_not_mem
  rw [List.map_append, List.mem_append, not_or] at fresh
  rcases remove_spec (show Queued node ([] ++ s :: q) from queued) with ⟨node', removed, queued', slots', next', prev'⟩
  let b₁ := ((b.setNode n node).clearSlot (b.orderAt (n, s)).id)
  let b₂ := b₁.setNode n node'
  have some : 0 < lvl'.orderCount.toNat := by
    rw [count, level.count_toNat stock, Chain.queue_cons]
    exact Nat.succ_pos _
  have call : dropMaker (b.setNode n node) lvl' n s (b.orderAt (n, s)).id =
      (b₂, { lvl' with orderCount := lvl'.orderCount - 1 }) := by
    have erased : (b.setNode n node).eraseId (b.orderAt (n, s)).id = b₁ := by
      rw [eraseId, if_pos]
      exact ⟨within, alive⟩
    have node_eq : b₁.nodes n = node := Function.update_self ..
    rw [dropMaker, erased, node_eq, removed]
    exact takeCount_eq some
  have nodes : b₂.nodes = Function.update b.nodes n node' := Function.update_idem ..
  have others_eq : ∀ i ∈ [] ++ q, node'.slots i = (b.nodes n).slots i := by
    intro i member
    have apart : i ≠ s := by
      intro same
      exact (List.nodup_cons.mp queued.distinct).1 (same ▸ member)
    rw [slots', slots i apart]
  have stock' : Stock b₂ ((n, q) :: (rest ++ others)) := by
    have split : Stock b ((n, [] ++ s :: q) :: (rest ++ others)) := stock
    refine split.removed queued' others_eq nodes ?_ rfl rfl rfl rfl
    rw [← entry]
    rfl
  have split : Level b.nodes h price lvl ([] ++ (n, [] ++ s :: q) :: rest) := level
  have level' := split.removed node' { lvl' with orderCount := lvl'.orderCount - 1 } fresh.1 (next'.trans next) (prev'.trans prev) others_eq named head tail (by rw [count]) total
  rw [← nodes] at level'
  refine ⟨b₂, _, call, stock', level'.1, ?_, ?_⟩
  · have before := queue_split b.nodes [] rest n s [] q
    have after := level'.2
    rw [List.nil_append, List.nil_append] at before after
    rw [before, after]
    rfl
  · refine ⟨?_, rfl, rfl, rfl, rfl⟩
    intro m member
    have apart : m ≠ n := fun same => fresh.2 (same ▸ member)
    rw [nodes, Function.update_of_ne apart]

theorem notePartialFill_spec (r fill : Qty) (stock : Stock b ((n, s :: q) :: (rest ++ others)))
    (level : Level b.nodes h price lvl ((n, s :: q) :: rest))
    (left : (b.orderAt (n, s)).remaining.toNat = r.toNat + fill.toNat) :
    ∃ b', (b.setNode n ((b.nodes n).setSlot s ((b.orderAt (n, s)).withRemaining r))).notePartialFill
        (b.orderAt (n, s)).id r = b' ∧
      Stock b' ((n, s :: q) :: (rest ++ others)) ∧
      Level b'.nodes h price { lvl with totalQty := lvl.totalQty - fill.toUInt64 } ((n, s :: q) :: rest) ∧
      Chain.queue b'.nodes ((n, s :: q) :: rest) =
        (b.orderAt (n, s)).withRemaining r :: (Chain.queue b.nodes ((n, s :: q) :: rest)).tail ∧
      Frame others b b' := by
  have spot : (n, s) ∈ Chain.spots ((n, s :: q) :: (rest ++ others)) := by
    rw [Chain.spots_cons]
    exact List.mem_cons_self
  rcases stock.posted (n, s) spot with ⟨within, entry⟩
  have fresh := stock.fst_not_mem
  rw [List.map_append, List.mem_append, not_or] at fresh
  have queued := stock.queued n (s :: q) List.mem_cons_self
  let node := (b.nodes n).setSlot s ((b.orderAt (n, s)).withRemaining r)
  let b' : OrderBook := { b.setNode n node with
    locators := Function.update b.locators (b.orderAt (n, s)).id.toNat
      { b.locators (b.orderAt (n, s)).id.toNat with remaining := r } }
  have call : (b.setNode n node).notePartialFill (b.orderAt (n, s)).id r = b' := by
    exact if_pos within
  have nodes : b'.nodes = Function.update b.nodes n node := rfl
  have split : Level b.nodes h price lvl ([] ++ (n, [] ++ s :: q) :: rest) := level
  have level' := split.refilled node { lvl with totalQty := lvl.totalQty - fill.toUInt64 } fresh.1
    (List.nodup_cons.mp queued.distinct).1 rfl rfl rfl left rfl rfl rfl rfl rfl
  refine ⟨b', call, ?_, level'.1, ?_, ?_⟩
  · have split : Stock b ((n, [] ++ s :: q) :: (rest ++ others)) := stock
    have kept : Queued node ([] ++ s :: q) := queued.of_fields rfl rfl rfl rfl rfl
    refine split.refilled kept rfl nodes ?_ rfl rfl rfl rfl
    rw [← entry]
  · have before := queue_split b.nodes [] rest n s [] q
    have after := level'.2
    rw [List.nil_append, List.nil_append] at before after
    rw [before]
    exact after
  · refine ⟨?_, rfl, rfl, rfl, rfl⟩
    intro m member
    have apart : m ≠ n := fun same => fresh.2 (same ▸ member)
    rw [nodes, Function.update_of_ne apart]

/-- What a sweep of a level leaves, beside the sweep of its queue. -/
structure Swept (m m' : Matcher) (h : Half) (price : PriceTick) (lvl' : PriceLevel) (others chain' : Chain)
    (swept : Ladder.Sweep (List Order)) : Prop where
  stock : Stock m'.book (chain' ++ others)
  level : Level m'.book.nodes h price lvl' chain'
  queue : chain'.queue m'.book.nodes = swept.left
  frame : Frame others m.book m'.book
  taker : m'.taker = swept.taker
  events : m'.events = m.events ++ swept.events
  result : m'.result = { m.result with trades := m.result.trades + UInt32.ofNat swept.events.length }

theorem fillFront_spec (takerBuy : Bool) {m : Matcher} (stock : Stock m.book ((n, s :: q) :: (rest ++ others)))
    (level : Level m.book.nodes h price lvl ((n, s :: q) :: rest)) :
    ∃ m' lvl' chain', m.fillFront takerBuy lvl n s = (m', lvl') ∧
      Swept m m' h price lvl' others chain'
        { Ladder.fill takerBuy m.taker (m.book.orderAt (n, s)) with
          left := (Ladder.fill takerBuy m.taker (m.book.orderAt (n, s))).left ++
            (Chain.queue m.book.nodes ((n, s :: q) :: rest)).tail } := by
  have queued := stock.queued n (s :: q) List.mem_cons_self
  by_cases zero : (m.book.orderAt (n, s)).remaining = 0
  · rcases dropMaker_spec (m.book.nodes n) lvl stock level queued (fun _ _ => rfl) rfl rfl rfl rfl rfl rfl
      (by rw [zero]; simp) with ⟨b', lvl', dropped, stock', level', queue', frame⟩
    rw [show m.book.setNode n (m.book.nodes n) = m.book by rw [setNode, Function.update_eq_self]] at dropped
    refine ⟨{ m with book := b' }, lvl', (n, q) :: rest, ?_, ?_⟩
    · rw [fillFront, show (m.book.nodes n).slots s = m.book.orderAt (n, s) from rfl, if_pos zero, dropped]
    · rw [Ladder.fill, if_pos zero, queue']
      exact ⟨stock', level', rfl, frame, rfl, (List.append_nil _).symm, by simp⟩
  · have whole : Chain.queue m.book.nodes ((n, s :: q) :: rest) =
        m.book.orderAt (n, s) :: (Chain.queue m.book.nodes ((n, s :: q) :: rest)).tail := by
      rw [Chain.queue_cons]
      rfl
    have total := level.total_toNat stock
    rw [whole, quantity_cons] at total
    have spec := fun node lvl' => dropMaker_spec node lvl' stock level
    have stays := fun r fill => notePartialFill_spec r fill stock level
    generalize same : m.book.orderAt (n, s) = maker at *
    have slot : (m.book.nodes n).slots s = maker := same
    rcases Ladder.sub_fillQty m.taker maker with ⟨-, sum, -⟩
    have enough : (fillQty m.taker maker).toNat ≤ lvl.totalQty.toNat := by omega
    simp only [fillFront, slot, if_neg zero, takeQty_eq enough, Order.withRemaining_remaining, Order.withRemaining_id]
    by_cases full : maker.remaining - fillQty m.taker maker = 0
    · have all : fillQty m.taker maker = maker.remaining := by
        rw [full, UInt32.toNat_zero, Nat.zero_add] at sum
        exact UInt32.toNat_inj.mp sum.symm
      rcases spec ((m.book.nodes n).setSlot s (maker.withRemaining (maker.remaining - fillQty m.taker maker)))
        { lvl with totalQty := lvl.totalQty - (fillQty m.taker maker).toUInt64 } (queued.of_fields rfl rfl rfl rfl rfl) (fun i apart => Function.update_of_ne apart ..) rfl rfl rfl rfl
        rfl rfl (by rw [all]) with ⟨b', lvl', dropped, stock', level', queue', frame⟩
      rw [Ladder.fill_full takerBuy zero full, if_pos full, dropped]
      refine ⟨_, lvl', (n, q) :: rest, rfl, stock', level', ?_, frame, rfl, rfl, rfl⟩
      rw [queue']
      rfl
    · rcases stays _ _ sum with ⟨b', noted, stock', level', queue', frame⟩
      rw [Ladder.fill_part takerBuy zero full, if_neg full, noted]
      exact ⟨_, _, (n, s :: q) :: rest, rfl, stock', level', queue', frame, rfl, rfl, rfl⟩

theorem sweepLevelLoop_spec (takerBuy : Bool) (fuel : Nat) {m : Matcher} (stock : Stock m.book (chain ++ others))
    (level : Level m.book.nodes h price lvl chain) (started : 0 < fuel)
    (enough : m.taker.remaining = 0 ∨ (chain.queue m.book.nodes).length < fuel) :
    ∃ m' lvl' chain', sweepLevelLoop takerBuy fuel m lvl = some (m', lvl') ∧
      Swept m m' h price lvl' others chain' (Ladder.sweep takerBuy m.taker (chain.queue m.book.nodes)) := by
  induction fuel generalizing m lvl chain with
  | zero => exact absurd started (Nat.lt_irrefl 0)
  | succ fuel ih =>
    by_cases done : m.taker.remaining = 0
    · refine ⟨m, lvl, chain, by rw [sweepLevelLoop, if_pos done], ?_⟩
      rw [Ladder.sweep_done takerBuy _ done]
      exact ⟨stock, level, rfl, Frame.refl _ _, rfl, (List.append_nil _).symm, by simp⟩
    · rcases frontNode_spec stock level with ⟨b₁, lvl₁, front, chain₁, found, fronted, outcome⟩
      have short := enough.resolve_left done
      rw [← fronted.queue] at short ⊢
      rcases outcome with ⟨rfl, rfl⟩ | ⟨n, s, q, rest, rfl, rfl⟩
      · refine ⟨{ m with book := b₁ }, lvl₁, [], ?_, fronted.stock, fronted.level, rfl, fronted.frame, rfl, ?_, ?_⟩
        · rw [sweepLevelLoop, if_neg done, found]
          rfl
        · exact (List.append_nil _).symm
        · simp [Ladder.sweep, Chain.queue, Chain.spots]
      · have queued := fronted.stock.queued n (s :: q) List.mem_cons_self
        have head : (b₁.nodes n).headSlot = s := queued.head
        have real : s ≠ NIL_SLOT := fun same => queued.nil_not_mem (same ▸ List.mem_cons_self)
        have whole : Chain.queue b₁.nodes ((n, s :: q) :: rest) =
            b₁.orderAt (n, s) :: (Chain.queue b₁.nodes ((n, s :: q) :: rest)).tail := by
          rw [Chain.queue_cons]
          rfl
        have front : Stock ({ m with book := b₁ } : Matcher).book ((n, s :: q) :: (rest ++ others)) := fronted.stock
        rcases fillFront_spec takerBuy front fronted.level with ⟨m₁, lvl₂, chain₂, filled, swept⟩
        have call : sweepLevelLoop takerBuy (fuel + 1) m lvl = sweepLevelLoop takerBuy fuel m₁ lvl₂ := by
          rw [sweepLevelLoop, if_neg done, found]
          simp only [Option.bind_eq_bind, Option.bind_some, head, if_neg real, filled]
        rw [whole, List.length_cons] at short
        have enough₁ : m₁.taker.remaining = 0 ∨ (chain₂.queue m₁.book.nodes).length < fuel := by
          rw [swept.taker, swept.queue]
          by_cases gone : (Ladder.fill takerBuy m.taker (b₁.orderAt (n, s))).left = []
          · right
            rw [gone, List.nil_append]
            exact Nat.lt_of_succ_lt_succ short
          · exact .inl (Ladder.fill_exhausts gone)
        rcases ih swept.stock swept.level (by omega) enough₁ with ⟨m', lvl', chain', looped, later⟩
        refine ⟨m', lvl', chain', call.trans looped, ?_⟩
        rw [swept.taker, swept.queue] at later
        rw [whole, Ladder.sweep_cons _ done]
        refine ⟨later.stock, later.level, later.queue, (fronted.frame.trans swept.frame).trans later.frame, later.taker, ?_, ?_⟩
        · rw [later.events, swept.events, List.append_assoc]
        · rw [later.result, swept.result]
          simp only [List.length_append, UInt32.ofNat_add, UInt32.add_assoc]

theorem sweepLevel_spec (takerBuy : Bool) {m : Matcher} (stock : Stock m.book (chain ++ others))
    (level : Level m.book.nodes h price lvl chain) :
    ∃ m' lvl' chain', m.sweepLevel takerBuy lvl = some (m', lvl') ∧
      Swept m m' h price lvl' others chain' (Ladder.sweep takerBuy m.taker (chain.queue m.book.nodes)) := by
  have bound := stock.spots_length_le
  rw [Chain.spots_append, List.length_append, Nat.mul_comm] at bound
  apply sweepLevelLoop_spec takerBuy _ stock level (Nat.succ_pos _)
  right
  rw [Chain.queue_length]
  omega

end Matcher

end Titan
