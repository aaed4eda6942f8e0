import Titan.Book.Stock

namespace Titan

open Linked PinNode

def quantity (orders : List Order) : Nat := (orders.map fun o => o.remaining.toNat).sum

@[simp] theorem quantity_nil : quantity [] = 0 := rfl

@[simp] theorem quantity_cons (o : Order) (orders : List Order) :
    quantity (o :: orders) = o.remaining.toNat + quantity orders := rfl

@[simp] theorem quantity_append (orders orders' : List Order) :
    quantity (orders ++ orders') = quantity orders + quantity orders' := by
  simp [quantity]

theorem quantity_lt (orders : List Order) (short : orders.length < 2 ^ 32) : quantity orders < 2 ^ 64 := by
  have each : quantity orders ≤ orders.length * (2 ^ 32 - 1) := by
    clear short
    induction orders with
    | nil => exact Nat.le_refl 0
    | cons o rest ih =>
      have low := o.remaining.toNat_lt
      rw [quantity_cons, List.length_cons, Nat.add_mul, Nat.one_mul]
      omega
  omega

namespace OrderBook

/-- `lvl` describes a chain of nodes whose orders belong to one price of one half. -/
structure Level (nodes : Nat → PinNode) (h : Half) (price : PriceTick) (lvl : PriceLevel) (chain : Chain) : Prop where
  named : lvl.price = price
  thread : Segment (fun n => (nodes n).next) (fun n => (nodes n).prev) INVALID_INDEX (chain.map Prod.fst) INVALID_INDEX
  head : lvl.head = (chain.map Prod.fst).headD INVALID_INDEX
  tail : lvl.tail = (chain.map Prod.fst).getLastD INVALID_INDEX
  home : ∀ o ∈ chain.queue nodes, o.price = price ∧ Half.ofSide o.side = h
  count : lvl.orderCount = UInt32.ofNat (chain.queue nodes).length
  total : lvl.totalQty = UInt64.ofNat (quantity (chain.queue nodes))

variable {b b' : OrderBook} {h : Half} {price : PriceTick} {lvl lvl' : PriceLevel} {chain others c₁ c₂ : Chain}
  {nodes nodes' : Nat → PinNode} {n s : Nat} {q l₁ l₂ : List Nat}

theorem Stock.queue_length (stock : Stock b (chain ++ others)) : (chain.queue b.nodes).length < 2 ^ 32 := by
  have bound := stock.spots_length
  rw [Chain.spots_append, List.length_append] at bound
  rw [Chain.queue_length]
  omega

theorem Level.count_toNat (level : Level b.nodes h price lvl chain) (stock : Stock b (chain ++ others)) :
    lvl.orderCount.toNat = (chain.queue b.nodes).length := by
  rw [level.count, UInt32.toNat_ofNat', Nat.mod_eq_of_lt stock.queue_length]

theorem Level.total_toNat (level : Level b.nodes h price lvl chain) (stock : Stock b (chain ++ others)) :
    lvl.totalQty.toNat = quantity (chain.queue b.nodes) := by
  rw [level.total, UInt64.toNat_ofNat', Nat.mod_eq_of_lt (quantity_lt _ stock.queue_length)]

theorem Level.count_zero_iff (level : Level b.nodes h price lvl chain) (stock : Stock b (chain ++ others)) :
    lvl.orderCount = 0 ↔ chain.queue b.nodes = [] := by
  rw [← UInt32.toNat_inj, level.count_toNat stock, UInt32.toNat_zero, List.length_eq_zero_iff]

theorem takeQty_eq {qty : Qty} (enough : qty.toNat ≤ lvl.totalQty.toNat) :
    b.takeQty lvl qty = (b, { lvl with totalQty := lvl.totalQty - qty.toUInt64 }) := by
  have held : lvl.totalQty ≥ qty.toUInt64 := by
    rw [ge_iff_le, UInt64.le_iff_toNat_le, UInt32.toNat_toUInt64]
    exact enough
  rw [takeQty, if_pos held]

theorem takeCount_eq (some : 0 < lvl.orderCount.toNat) :
    b.takeCount lvl = (b, { lvl with orderCount := lvl.orderCount - 1 }) := by
  have held : lvl.orderCount > 0 := by
    rw [gt_iff_lt, UInt32.lt_iff_toNat_lt]
    exact some
  rw [takeCount, if_pos held]

theorem Level.congr (level : Level nodes h price lvl chain) (same : ∀ n ∈ chain.map Prod.fst, nodes' n = nodes n) :
    Level nodes' h price lvl chain := by
  have queue := Chain.queue_congr_nodes same
  refine ⟨level.named, ?_, level.head, level.tail, ?_, ?_, ?_⟩
  · apply level.thread.congr
    · intro n member
      rw [same n member]
    · intro n member
      rw [same n member]
  · rw [queue]
    exact level.home
  · rw [queue]
    exact level.count
  · rw [queue]
    exact level.total

theorem queue_split (nodes : Nat → PinNode) (c₁ c₂ : Chain) (n s : Nat) (l₁ l₂ : List Nat) :
    Chain.queue nodes (c₁ ++ (n, l₁ ++ s :: l₂) :: c₂) =
      (c₁.queue nodes ++ l₁.map (nodes n).slots) ++ (nodes n).slots s :: (l₂.map (nodes n).slots ++ c₂.queue nodes) := by
  rw [Chain.queue_append, Chain.queue_cons, List.map_append, List.map_cons]
  simp only [List.append_assoc, List.cons_append]

section Update

variable {node : PinNode}

theorem queue_update (outside : n ∉ (c₁ ++ c₂).map Prod.fst) (nodes : Nat → PinNode) (q : List Nat) :
    Chain.queue (Function.update nodes n node) (c₁ ++ (n, q) :: c₂) =
      c₁.queue nodes ++ (q.map node.slots ++ c₂.queue nodes) := by
  have apart : ∀ m ∈ (c₁ ++ c₂).map Prod.fst, m ≠ n := fun m member same => outside (same ▸ member)
  rw [Chain.queue_append, Chain.queue_cons, Function.update_self]
  congr 1
  · apply Chain.queue_congr_nodes
    intro m member
    have other : m ≠ n := apart m (by rw [List.map_append]; exact List.mem_append_left _ member)
    exact Function.update_of_ne other ..
  · congr 1
    apply Chain.queue_congr_nodes
    intro m member
    have other : m ≠ n := apart m (by rw [List.map_append]; exact List.mem_append_right _ member)
    exact Function.update_of_ne other ..

theorem thread_update {o : Nat} {l : List Nat} (next : node.next = (nodes n).next) (prev : node.prev = (nodes n).prev)
    (thread : Segment (fun n => (nodes n).next) (fun n => (nodes n).prev) o l o) :
    Segment (fun m => (Function.update nodes n node m).next) (fun m => (Function.update nodes n node m).prev) o l o := by
  apply thread.congr
  · intro m _
    by_cases same : m = n
    · subst same
      rw [Function.update_self, next]
    · rw [Function.update_of_ne same]
  · intro m _
    by_cases same : m = n
    · subst same
      rw [Function.update_self, prev]
    · rw [Function.update_of_ne same]

theorem Level.removed (node : PinNode) (lvl' : PriceLevel) (level : Level nodes h price lvl (c₁ ++ (n, l₁ ++ s :: l₂) :: c₂))
    (outside : n ∉ (c₁ ++ c₂).map Prod.fst) (next : node.next = (nodes n).next) (prev : node.prev = (nodes n).prev)
    (slots : ∀ i ∈ l₁ ++ l₂, node.slots i = (nodes n).slots i) (named : lvl'.price = lvl.price)
    (head : lvl'.head = lvl.head) (tail : lvl'.tail = lvl.tail) (count : lvl'.orderCount = lvl.orderCount - 1)
    (total : lvl'.totalQty = lvl.totalQty - ((nodes n).slots s).remaining.toUInt64) :
    Level (Function.update nodes n node) h price lvl' (c₁ ++ (n, l₁ ++ l₂) :: c₂) ∧
      Chain.queue (Function.update nodes n node) (c₁ ++ (n, l₁ ++ l₂) :: c₂) =
        (c₁.queue nodes ++ l₁.map (nodes n).slots) ++ (l₂.map (nodes n).slots ++ c₂.queue nodes) := by
  have before := queue_split nodes c₁ c₂ n s l₁ l₂
  have after : Chain.queue (Function.update nodes n node) (c₁ ++ (n, l₁ ++ l₂) :: c₂) =
      (c₁.queue nodes ++ l₁.map (nodes n).slots) ++ (l₂.map (nodes n).slots ++ c₂.queue nodes) := by
    rw [queue_update outside, List.map_congr_left slots, List.map_append]
    simp only [List.append_assoc]
  have map_eq : ∀ q q' : List Nat, List.map Prod.fst (c₁ ++ (n, q) :: c₂) = List.map Prod.fst (c₁ ++ (n, q') :: c₂) := by
    intro q q'
    simp only [List.map_append, List.map_cons]
  have kept := map_eq (l₁ ++ l₂) (l₁ ++ s :: l₂)
  refine ⟨⟨named.trans level.named, ?_, ?_, ?_, ?_, ?_, ?_⟩, after⟩
  · rw [kept]
    exact thread_update next prev level.thread
  · rw [kept]
    exact head.trans level.head
  · rw [kept]
    exact tail.trans level.tail
  · intro o member
    apply level.home o
    rw [after] at member
    rw [before]
    simp only [List.mem_append, List.mem_cons] at member ⊢
    tauto
  · rw [count, level.count, before, after]
    simp only [List.length_append, List.length_cons]
    rw [← Nat.add_assoc, UInt32.ofNat_add]
    exact UInt32.add_sub_cancel _ _
  · rw [total, level.total, before, after]
    simp only [quantity_append, quantity_cons]
    rw [Nat.add_left_comm, UInt64.ofNat_add (((nodes n).slots s).remaining.toNat), UInt64.add_comm]
    rw [UInt64.ofNat_uInt32ToNat]
    exact UInt64.add_sub_cancel _ _

theorem Level.refilled (node : PinNode) (lvl' : PriceLevel) {r fill : Qty} (level : Level nodes h price lvl (c₁ ++ (n, l₁ ++ s :: l₂) :: c₂))
    (outside : n ∉ (c₁ ++ c₂).map Prod.fst) (once : s ∉ l₁ ++ l₂) (next : node.next = (nodes n).next)
    (prev : node.prev = (nodes n).prev)
    (slots : node.slots = Function.update (nodes n).slots s (((nodes n).slots s).withRemaining r))
    (left : ((nodes n).slots s).remaining.toNat = r.toNat + fill.toNat) (named : lvl'.price = lvl.price)
    (head : lvl'.head = lvl.head) (tail : lvl'.tail = lvl.tail) (count : lvl'.orderCount = lvl.orderCount)
    (total : lvl'.totalQty = lvl.totalQty - fill.toUInt64) :
    Level (Function.update nodes n node) h price lvl' (c₁ ++ (n, l₁ ++ s :: l₂) :: c₂) ∧
      Chain.queue (Function.update nodes n node) (c₁ ++ (n, l₁ ++ s :: l₂) :: c₂) =
        (c₁.queue nodes ++ l₁.map (nodes n).slots) ++
          ((nodes n).slots s).withRemaining r :: (l₂.map (nodes n).slots ++ c₂.queue nodes) := by
  have before := queue_split nodes c₁ c₂ n s l₁ l₂
  have others : ∀ i ∈ l₁ ++ l₂, node.slots i = (nodes n).slots i := by
    intro i member
    have apart : i ≠ s := fun same => once (same ▸ member)
    rw [slots, Function.update_of_ne apart]
  have after : Chain.queue (Function.update nodes n node) (c₁ ++ (n, l₁ ++ s :: l₂) :: c₂) =
      (c₁.queue nodes ++ l₁.map (nodes n).slots) ++
        ((nodes n).slots s).withRemaining r :: (l₂.map (nodes n).slots ++ c₂.queue nodes) := by
    rw [queue_update outside, List.map_append, List.map_cons, slots, Function.update_self, ← slots,
      List.map_congr_left fun i member => others i (List.mem_append_left _ member),
      List.map_congr_left fun i member => others i (List.mem_append_right _ member)]
    simp only [List.append_assoc, List.cons_append]
  refine ⟨⟨named.trans level.named, thread_update next prev level.thread, head.trans level.head, tail.trans level.tail,
    ?_, ?_, ?_⟩, after⟩
  · intro o member
    rw [after, List.mem_append, List.mem_cons] at member
    rcases member with early | same | late
    · exact level.home o (by rw [before, List.mem_append]; exact .inl early)
    · rw [same]
      exact level.home ((nodes n).slots s) (by rw [before]; simp)
    · exact level.home o (by rw [before, List.mem_append, List.mem_cons]; exact .inr (.inr late))
  · rw [count, level.count, before, after]
    simp only [List.length_append, List.length_cons]
  · have sum : quantity (Chain.queue nodes (c₁ ++ (n, l₁ ++ s :: l₂) :: c₂)) =
        quantity (Chain.queue (Function.update nodes n node) (c₁ ++ (n, l₁ ++ s :: l₂) :: c₂)) + fill.toNat := by
      rw [before, after]
      simp only [quantity_append, quantity_cons, Order.withRemaining]
      omega
    rw [total, level.total, sum, UInt64.ofNat_add, UInt64.ofNat_uInt32ToNat]
    exact UInt64.add_sub_cancel _ _

theorem Level.pushed (node : PinNode) (lvl' : PriceLevel) {o : Order} (level : Level nodes h price lvl (c₁ ++ [(n, q)])) (outside : n ∉ c₁.map Prod.fst)
    (fresh : s ∉ q) (next : node.next = (nodes n).next) (prev : node.prev = (nodes n).prev)
    (slots : node.slots = Function.update (nodes n).slots s o) (home : o.price = price ∧ Half.ofSide o.side = h)
    (named : lvl'.price = lvl.price) (head : lvl'.head = lvl.head) (tail : lvl'.tail = lvl.tail)
    (count : lvl'.orderCount = lvl.orderCount + 1) (total : lvl'.totalQty = lvl.totalQty + o.remaining.toUInt64) :
    Level (Function.update nodes n node) h price lvl' (c₁ ++ [(n, q ++ [s])]) ∧
      Chain.queue (Function.update nodes n node) (c₁ ++ [(n, q ++ [s])]) =
        Chain.queue nodes (c₁ ++ [(n, q)]) ++ [o] := by
  have after : Chain.queue (Function.update nodes n node) (c₁ ++ [(n, q ++ [s])]) =
      Chain.queue nodes (c₁ ++ [(n, q)]) ++ [o] := by
    have kept : q.map node.slots = q.map (nodes n).slots := by
      apply List.map_congr_left
      intro i member
      have apart : i ≠ s := fun same => fresh (same ▸ member)
      rw [slots, Function.update_of_ne apart]
    rw [queue_update (by simpa using outside), Chain.queue_append, Chain.queue_cons, List.map_append, kept,
      List.map_singleton, slots, Function.update_self]
    simp only [List.append_assoc, Chain.queue, Chain.spots, List.flatMap_nil, List.map_nil, List.append_nil]
  have kept : List.map Prod.fst (c₁ ++ [(n, q ++ [s])]) = List.map Prod.fst (c₁ ++ [(n, q)]) := by
    simp only [List.map_append, List.map_cons, List.map_nil]
  refine ⟨⟨named.trans level.named, ?_, ?_, ?_, ?_, ?_, ?_⟩, after⟩
  · rw [kept]
    exact thread_update next prev level.thread
  · rw [kept]
    exact head.trans level.head
  · rw [kept]
    exact tail.trans level.tail
  · intro o' member
    rw [after, List.mem_append, List.mem_singleton] at member
    rcases member with old | new
    · exact level.home o' old
    · rw [new]
      exact home
  · rw [count, level.count, after, List.length_append, List.length_singleton, UInt32.ofNat_add]
    rfl
  · rw [total, level.total, after, quantity_append, quantity_cons, quantity_nil, Nat.add_zero, UInt64.ofNat_add,
      UInt64.ofNat_uInt32ToNat]

end Update

end OrderBook

end Titan
