import Titan.Book.Level
import Titan.Book.Matcher

namespace Titan

open Linked PinNode

namespace OrderBook

variable {b b' : OrderBook} {h : Half} {price : PriceTick} {lvl lvl' : PriceLevel} {chain others c₁ c₂ : Chain}
  {n s : Nat} {q l₁ l₂ : List Nat}

theorem Stock.mem_left (stock : Stock b (chain ++ others)) (member : n ∈ chain.map Prod.fst) : n < b.nodeCount :=
  stock.lt_of_block (by rw [List.map_append]; exact List.mem_append_left _ member)

theorem Stock.chain_length (stock : Stock b (chain ++ others)) : chain.length ≤ b.nodeCount := by
  have total := stock.pool.length_eq
  simp only [List.length_append, List.length_map, List.length_range] at total
  omega

theorem Stock.apart (stock : Stock b (chain ++ others)) {m : Nat} (inside : n ∈ chain.map Prod.fst)
    (outside : m ∈ others.map Prod.fst) : n ≠ m := by
  have distinct := (List.nodup_append.mp stock.nodup).2.1
  rw [List.map_append] at distinct
  exact (List.nodup_append.mp distinct).2.2 n inside m outside

theorem Level.extended {nodes nodes' : Nat → PinNode} {new : PinNode} (level : Level nodes h price lvl chain)
    (distinct : (chain.map Prod.fst).Nodup) (inside : lvl.tail ∈ chain.map Prod.fst) (fresh : n ∉ chain.map Prod.fst)
    (valid : INVALID_INDEX ∉ chain.map Prod.fst) (atNew : nodes' n = new.reset.setPrev lvl.tail)
    (atTail : nodes' lvl.tail = (nodes lvl.tail).setNext n)
    (elsewhere : ∀ m, m ≠ n → m ≠ lvl.tail → nodes' m = nodes m) :
    Level nodes' h price { lvl with tail := n } (chain ++ [(n, [])]) ∧
      Chain.queue nodes' (chain ++ [(n, [])]) = chain.queue nodes := by
  have other : ∀ m ∈ chain.map Prod.fst, m ≠ n := fun m member same => fresh (same ▸ member)
  have slots : ∀ m ∈ chain.map Prod.fst, (nodes' m).slots = (nodes m).slots := by
    intro m member
    by_cases last : m = lvl.tail
    · rw [last, atTail]
      rfl
    · rw [elsewhere m (other m member) last]
  have queue : Chain.queue nodes' (chain ++ [(n, [])]) = chain.queue nodes := by
    rw [Chain.queue_append, Chain.queue_cons]
    rw [show Chain.queue nodes' [] = [] from rfl, List.map_nil, List.append_nil, List.append_nil]
    apply Chain.queue_congr
    intro spot member
    rw [slots _ (Chain.fst_mem_of_mem_spots member)]
  have nonempty : chain.map Prod.fst ≠ [] := List.ne_nil_of_mem inside
  refine ⟨⟨level.named, ?_, ?_, ?_, ?_, ?_, ?_⟩, queue⟩
  · rw [List.map_append, List.map_singleton]
    have thread := level.thread
    rw [← List.append_nil (chain.map Prod.fst)] at thread
    apply thread.insert (by rwa [List.append_nil])
    · rw [atNew]
      rfl
    · rw [atNew, ← level.tail]
      rfl
    · intro m member notLast
      rw [List.append_nil] at member
      have apart : m ≠ lvl.tail := by
        rw [level.tail]
        exact getLastD_ne INVALID_INDEX (fun same => valid (same ▸ member)) notLast
      rw [elsewhere m (other m member) apart]
    · intro m member _
      rw [List.append_nil] at member
      by_cases last : m = lvl.tail
      · rw [last, atTail]
        rfl
      · rw [elsewhere m (other m member) last]
    · intro m last
      have same : m = lvl.tail := by rw [level.tail, getLastD_of_getLast? _ last]
      rw [same, atTail]
      rfl
    · intro m first
      cases first
  · rw [List.map_append, headD_append]
    rw [level.head]
    cases form : chain.map Prod.fst with
    | nil => exact absurd form nonempty
    | cons m rest => rfl
  · rw [List.map_append, getLastD_append]
    rfl
  · rw [queue]
    exact level.home
  · rw [queue]
    exact level.count
  · rw [queue]
    exact level.total

/-- What `ensure_tail_with_space` leaves when it finds a node with room. -/
structure Ensured (b b' : OrderBook) (h : Half) (price : PriceTick) (lvl' : PriceLevel) (chain others c : Chain) (n : Nat)
    (q : List Nat) : Prop where
  stock : Stock b' ((c ++ [(n, q)]) ++ others)
  level : Level b'.nodes h price lvl' (c ++ [(n, q)])
  queue : Chain.queue b'.nodes (c ++ [(n, q)]) = chain.queue b.nodes
  room : (b'.nodes n).full = false
  frame : Frame others b b'
  locators : b'.locators = b.locators
  valid : n ≠ INVALID_INDEX

theorem ensureTailWithSpace_spec (stock : Stock b (chain ++ others)) (level : Level b.nodes h price lvl chain)
    (nonempty : chain ≠ []) :
    (b.ensureTailWithSpace lvl = (b, lvl, INVALID_INDEX) ∧ (b.nodes lvl.tail).full = true ∧ b.freeNodes = []) ∨
      ∃ b' lvl' n c q, b.ensureTailWithSpace lvl = (b', lvl', n) ∧ Ensured b b' h price lvl' chain others c n q ∧
        ((b.nodes lvl.tail).full = true → b.freeNodes ≠ []) := by
  rcases List.eq_nil_or_concat chain with empty | ⟨c, block, split⟩
  · exact absurd empty nonempty
  rw [List.concat_eq_append] at split
  have tail : lvl.tail = block.1 := by
    rw [level.tail, split, List.map_append, getLastD_append]
    rfl
  have inside : block.1 ∈ chain.map Prod.fst := by
    rw [split]
    simp
  have valid : lvl.tail ≠ INVALID_INDEX := by
    rw [tail]
    exact stock.ne_invalid (stock.mem_left inside)
  by_cases room : (b.nodes lvl.tail).full = false
  · refine .inr ⟨b, lvl, lvl.tail, c, block.2, ?_, ?_, ?_⟩
    · rw [ensureTailWithSpace, if_neg valid, if_pos room]
    · rw [tail] at room valid ⊢
      rw [split] at stock level ⊢
      exact ⟨stock, level, rfl, room, Frame.refl _ _, rfl, valid⟩
    · intro full
      rw [room] at full
      cases full
  · cases stack : b.freeNodes with
    | nil =>
      refine .inl ⟨?_, by simpa using room, rfl⟩
      rw [ensureTailWithSpace, if_neg valid, if_neg room, allocNode_nil stack]
      rfl
    | cons n free =>
      rcases allocNode_cons stock stack with ⟨b₁, taken, grown, frame, nodes, locators, fresh, real⟩
      have apart : lvl.tail ≠ n := by
        intro same
        rw [List.map_append, List.mem_append, not_or] at fresh
        exact fresh.1 (same ▸ tail ▸ inside)
      let b₂ := b₁.setNode n ((b₁.nodes n).setPrev lvl.tail)
      let b₃ := b₂.setNode lvl.tail ((b₂.nodes lvl.tail).setNext n)
      have call : b.ensureTailWithSpace lvl = (b₃, { lvl with tail := n }, n) := by
        rw [ensureTailWithSpace, if_neg valid, if_neg room, taken]
        simp only [if_neg real]
        rfl
      have atNew : b₃.nodes n = (b.nodes n).reset.setPrev lvl.tail := by
        show Function.update (Function.update b₁.nodes n _) lvl.tail _ n = _
        rw [Function.update_of_ne (Ne.symm apart), Function.update_self, nodes, Function.update_self]
      have atTail : b₃.nodes lvl.tail = (b.nodes lvl.tail).setNext n := by
        show Function.update b₂.nodes lvl.tail (PinNode.setNext (Function.update b₁.nodes n _ lvl.tail) n) lvl.tail = _
        rw [Function.update_self, Function.update_of_ne apart, nodes, Function.update_of_ne apart]
      have elsewhere : ∀ m, m ≠ n → m ≠ lvl.tail → b₃.nodes m = b.nodes m := by
        intro m new old
        show Function.update (Function.update b₁.nodes n _) lvl.tail _ m = _
        rw [Function.update_of_ne old, Function.update_of_ne new, nodes, Function.update_of_ne new]
      have fresh' : n ∉ chain.map Prod.fst := by
        intro member
        exact fresh (by rw [List.map_append]; exact List.mem_append_left _ member)
      have distinct := (List.nodup_append.mp stock.nodup).2.1
      rw [List.map_append] at distinct
      have invalid : INVALID_INDEX ∉ chain.map Prod.fst := fun member => stock.ne_invalid (stock.mem_left member) rfl
      rcases level.extended (List.nodup_append.mp distinct).1 (tail ▸ inside) fresh' invalid atNew atTail elsewhere with
        ⟨level', queue⟩
      refine .inr ⟨b₃, _, n, chain, [], call, ⟨?_, level', queue, ?_, ?_, locators, real⟩, fun _ => by simp⟩
      · have perm : ((n, []) :: (chain ++ others)).Perm ((chain ++ [(n, [])]) ++ others) := by
          rw [List.append_assoc]
          exact List.perm_middle.symm
        exact ((grown.perm perm).setPrev n lvl.tail).setNext lvl.tail n
      · rw [atNew]
        rfl
      · refine ⟨?_, frame.maps, frame.nodeCount, frame.slabSize, frame.repairs⟩
        intro m member
        have new : m ≠ n := by
          intro same
          exact fresh (by rw [List.map_append, ← same]; exact List.mem_append_right _ member)
        have old : m ≠ lvl.tail := tail ▸ (stock.apart inside member).symm
        exact elsewhere m new old

theorem freeLevelNodesLoop_spec (fuel : Nat) {p : Nat} (chain : Chain) (stock : Stock b (chain ++ others))
    (thread : Segment (fun n => (b.nodes n).next) (fun n => (b.nodes n).prev) p (chain.map Prod.fst) INVALID_INDEX)
    (drained : ∀ block ∈ chain, block.2 = []) (enough : chain.length < fuel) :
    ∃ b', freeLevelNodesLoop fuel b ((chain.map Prod.fst).headD INVALID_INDEX) = some b' ∧ Stock b' others ∧
      Frame others b b' := by
  induction chain generalizing b p fuel with
  | nil =>
    cases fuel with
    | zero => exact absurd enough (Nat.not_lt_zero _)
    | succ fuel =>
      rw [freeLevelNodesLoop]
      exact ⟨b, rfl, stock, Frame.refl _ _⟩
  | cons block rest ih =>
    cases fuel with
    | zero => exact absurd enough (Nat.not_lt_zero _)
    | succ fuel =>
      have inside : block.1 ∈ List.map Prod.fst (block :: rest) := List.mem_cons_self
      have low := stock.mem_left inside
      have form : block = (block.1, []) := Prod.ext rfl (drained block List.mem_cons_self)
      rw [List.cons_append, form] at stock
      rcases freeNode_spec stock with ⟨-, stock', frame, nodes⟩
      have later := thread.2.2
      rw [← nodes] at later
      rcases ih fuel stock' later (fun block member => drained block (List.mem_cons_of_mem _ member))
        (Nat.lt_of_succ_lt_succ enough) with ⟨b', freed, stock'', frame'⟩
      have outer : Frame others b (b.freeNode block.1) :=
        ⟨fun m member => frame.nodes m (by rw [List.map_append]; exact List.mem_append_right _ member), frame.maps,
          frame.nodeCount, frame.slabSize, frame.repairs⟩
      refine ⟨b', ?_, stock'', outer.trans frame'⟩
      rw [List.map_cons, List.headD_cons, freeLevelNodesLoop, if_neg (stock.ne_invalid low), if_pos low]
      rw [show (b.nodes block.1).next = (rest.map Prod.fst).headD INVALID_INDEX from thread.2.1]
      exact freed

theorem drained_of_queue {nodes : Nat → PinNode} (empty : chain.queue nodes = []) : ∀ block ∈ chain, block.2 = [] := by
  intro block member
  rw [List.eq_nil_iff_forall_not_mem]
  intro s inside
  have spot : (block.1, s) ∈ chain.spots := Chain.mem_spots.mpr ⟨block.2, member, inside⟩
  rw [Chain.queue, List.map_eq_nil_iff] at empty
  rw [empty] at spot
  cases spot

theorem freeLevelNodes_spec (stock : Stock b (chain ++ others)) (level : Level b.nodes h price lvl chain)
    (empty : chain.queue b.nodes = []) :
    ∃ b' lvl', b.freeLevelNodes lvl = some (b', lvl') ∧ Stock b' others ∧ Frame others b b' := by
  rcases freeLevelNodesLoop_spec (b.nodeCount + 1) chain stock level.thread (drained_of_queue empty)
    (Nat.lt_succ_of_le stock.chain_length) with ⟨b', freed, stock', frame⟩
  refine ⟨b', { lvl with head := INVALID_INDEX, tail := INVALID_INDEX }, ?_, stock', frame⟩
  rw [freeLevelNodes, level.head, freed]
  rfl

structure Fronted (b b' : OrderBook) (h : Half) (price : PriceTick) (lvl' : PriceLevel) (chain others chain' : Chain) :
    Prop where
  stock : Stock b' (chain' ++ others)
  level : Level b'.nodes h price lvl' chain'
  queue : chain'.queue b'.nodes = chain.queue b.nodes
  frame : Frame others b b'

theorem dropFront_spec {rest : Chain} (stock : Stock b ((n, []) :: (rest ++ others)))
    (level : Level b.nodes h price lvl ((n, []) :: rest)) :
    ∃ b' lvl', Matcher.dropFront b lvl = (b', lvl') ∧ Fronted b b' h price lvl' ((n, []) :: rest) others rest := by
  rcases freeNode_spec stock with ⟨freed, stock', frame, nodes⟩
  have head : lvl.head = n := level.head
  have next : (b.nodes n).next = (rest.map Prod.fst).headD INVALID_INDEX := level.thread.2.1
  have distinct := (List.nodup_append.mp stock'.nodup).2.1
  rw [List.map_append] at distinct
  have outer : Frame others b (b.freeNode n) :=
    ⟨fun m member => frame.nodes m (by rw [List.map_append]; exact List.mem_append_right _ member), frame.maps,
      frame.nodeCount, frame.slabSize, frame.repairs⟩
  cases rest with
  | nil =>
    rw [List.map_nil, List.headD_nil] at next
    refine ⟨b.freeNode n, { lvl with head := INVALID_INDEX, tail := INVALID_INDEX }, ?_, ?_⟩
    · rw [Matcher.dropFront, head, next]
      rfl
    · refine ⟨stock', ⟨level.named, trivial, rfl, rfl, ?_, level.count, level.total⟩, rfl, outer⟩
      intro o member
      cases member
  | cons block rest =>
    have first : (b.nodes n).next = block.1 := next
    have valid : block.1 ≠ INVALID_INDEX := stock'.ne_invalid (stock'.mem_left List.mem_cons_self)
    refine ⟨(b.freeNode n).setNode block.1 ((b.nodes block.1).setPrev INVALID_INDEX), { lvl with head := block.1 }, ?_, ?_⟩
    · rw [Matcher.dropFront, head, first, if_pos valid, nodes]
    have all : ((b.freeNode n).setNode block.1 ((b.nodes block.1).setPrev INVALID_INDEX)).nodes =
        Function.update b.nodes block.1 ((b.nodes block.1).setPrev INVALID_INDEX) := by
      rw [← nodes]
      rfl
    have queue : Chain.queue (Function.update b.nodes block.1 ((b.nodes block.1).setPrev INVALID_INDEX)) (block :: rest) =
        Chain.queue b.nodes (block :: rest) := by
      apply Chain.queue_congr
      intro spot _
      by_cases same : spot.1 = block.1
      · rw [same, Function.update_self]
        rfl
      · rw [Function.update_of_ne same]
    refine ⟨?_, ?_, by rw [all, queue]; rfl, outer.trans ⟨?_, rfl, rfl, rfl, rfl⟩⟩
    · rw [← nodes]
      exact stock'.setPrev block.1 INVALID_INDEX
    · rw [all]
      refine ⟨level.named, ?_, rfl, level.tail, ?_, ?_, ?_⟩
      · apply level.thread.2.2.entry (List.nodup_append.mp distinct).1
        · intro m _
          by_cases same : m = block.1
          · rw [same, Function.update_self]
            rfl
          · rw [Function.update_of_ne same]
        · intro m _ notFirst
          have apart : m ≠ block.1 := fun same => notFirst (by rw [same]; rfl)
          rw [Function.update_of_ne apart]
        · intro m isFirst
          have same : m = block.1 := (Option.some.inj isFirst).symm
          rw [same, Function.update_self]
          rfl
      · rw [queue]
        exact level.home
      · rw [queue]
        exact level.count
      · rw [queue]
        exact level.total
    · intro m member
      have apart : m ≠ block.1 := (stock'.apart List.mem_cons_self member).symm
      exact Function.update_of_ne apart ..

theorem Fronted.trans {b'' : OrderBook} {lvl'' : PriceLevel} {chain' chain'' : Chain}
    (first : Fronted b b' h price lvl' chain others chain')
    (second : Fronted b' b'' h price lvl'' chain' others chain'') :
    Fronted b b'' h price lvl'' chain others chain'' where
  stock := second.stock
  level := second.level
  queue := second.queue.trans first.queue
  frame := first.frame.trans second.frame

theorem frontNodeLoop_spec (fuel : Nat) (chain : Chain) (stock : Stock b (chain ++ others))
    (level : Level b.nodes h price lvl chain) (enough : chain.length < fuel) :
    ∃ b' lvl' front chain', Matcher.frontNodeLoop fuel b lvl = some (b', lvl', front) ∧
      Fronted b b' h price lvl' chain others chain' ∧
      ((front = none ∧ chain' = []) ∨ ∃ n s q rest, front = some n ∧ chain' = (n, s :: q) :: rest) := by
  induction chain generalizing b lvl fuel with
  | nil =>
    cases fuel with
    | zero => exact absurd enough (Nat.not_lt_zero _)
    | succ fuel =>
      have head : lvl.head = INVALID_INDEX := level.head
      refine ⟨b, lvl, none, [], ?_, ⟨stock, level, rfl, Frame.refl _ _⟩, .inl ⟨rfl, rfl⟩⟩
      rw [Matcher.frontNodeLoop, if_pos head]
  | cons block rest ih =>
    cases fuel with
    | zero => exact absurd enough (Nat.not_lt_zero _)
    | succ fuel =>
      have head : lvl.head = block.1 := level.head
      have low : block.1 < b.nodeCount := stock.mem_left List.mem_cons_self
      have queued : Queued (b.nodes block.1) block.2 :=
        stock.queued block.1 block.2 (List.mem_append_left _ List.mem_cons_self)
      rw [Matcher.frontNodeLoop, head, if_neg (stock.ne_invalid low), if_neg (Nat.not_le.mpr low)]
      by_cases empty : (b.nodes block.1).empty = false
      · rw [if_pos empty]
        cases slots : block.2 with
        | nil =>
          rw [queued.empty_iff.mpr slots] at empty
          cases empty
        | cons s q =>
          refine ⟨b, lvl, some block.1, block :: rest, rfl, ⟨stock, level, rfl, Frame.refl _ _⟩,
            .inr ⟨block.1, s, q, rest, rfl, ?_⟩⟩
          rw [← slots]
      · rw [if_neg empty]
        have none : block.2 = [] := queued.empty_iff.mp (by simpa using empty)
        have form : block = (block.1, []) := Prod.ext rfl none
        rw [form] at stock level
        rcases dropFront_spec stock level with ⟨b₁, lvl₁, dropped, fronted⟩
        rcases ih fuel fronted.stock fronted.level (Nat.lt_of_succ_lt_succ enough) with
          ⟨b', lvl', front, chain', looped, fronted', outcome⟩
        refine ⟨b', lvl', front, chain', ?_, ?_, outcome⟩
        · rw [dropped]
          exact looped
        · rw [form]
          exact fronted.trans fronted'

theorem frontNode_spec (stock : Stock b (chain ++ others)) (level : Level b.nodes h price lvl chain) :
    ∃ b' lvl' front chain', Matcher.frontNode b lvl = some (b', lvl', front) ∧
      Fronted b b' h price lvl' chain others chain' ∧
      ((front = none ∧ chain' = []) ∨ ∃ n s q rest, front = some n ∧ chain' = (n, s :: q) :: rest) :=
  frontNodeLoop_spec (b.nodeCount + 1) chain stock level (Nat.lt_succ_of_le stock.chain_length)

end OrderBook

end Titan
