import Titan.Book.RBRuns
import Titan.Book.Sweep

namespace Titan

open RedBlack Linked PinNode

/-- Where a book keeps its orders: the tree of each half and the chain of each of its cells. -/
structure Layout where
  tree : Half → RBTree Nat
  chain : Half → Nat → Chain

namespace Layout

variable {L : Layout} {h h' : Half} {i j : Nat} {c : Chain}

def half (L : Layout) (h : Half) : Chain := (L.tree h).inorder.flatMap (L.chain h)

def blocks (L : Layout) : Chain := L.half .bids ++ L.half .asks

def setChain (L : Layout) (h : Half) (i : Nat) (c : Chain) : Layout :=
  { L with chain := Function.update L.chain h (Function.update (L.chain h) i c) }

def setTree (L : Layout) (h : Half) (tree : RBTree Nat) : Layout := { L with tree := Function.update L.tree h tree }

def others (L : Layout) (h : Half) (i : Nat) : Chain := (L.setChain h i []).blocks

@[simp] theorem setChain_tree : (L.setChain h i c).tree = L.tree := rfl

@[simp] theorem setChain_self : (L.setChain h i c).chain h i = c := by
  simp [setChain]

theorem setChain_of_ne (apart : ¬(h' = h ∧ j = i)) : (L.setChain h i c).chain h' j = L.chain h' j := by
  by_cases same : h' = h
  · subst same
    have other : j ≠ i := fun equal => apart ⟨rfl, equal⟩
    simp [setChain, Function.update_of_ne other]
  · simp [setChain, Function.update_of_ne same]

theorem setChain_eq_self : L.setChain h i (L.chain h i) = L := by
  simp [setChain]

theorem others_setChain : (L.setChain h i c).others h i = L.others h i := by
  simp [others, setChain]

theorem flatMap_update {l₁ l₂ : List Nat} (outside : i ∉ l₁ ++ l₂) (f : Nat → Chain) (c : Chain) :
    (l₁ ++ i :: l₂).flatMap (Function.update f i c) = l₁.flatMap f ++ (c ++ l₂.flatMap f) := by
  have same : ∀ l : List Nat, i ∉ l → l.flatMap (Function.update f i c) = l.flatMap f := by
    intro l absent
    rw [List.flatMap, List.flatMap]
    congr 1
    apply List.map_congr_left
    intro j member
    have apart : j ≠ i := fun equal => absent (equal ▸ member)
    exact Function.update_of_ne apart ..
  rw [List.mem_append, not_or] at outside
  rw [List.flatMap_append, List.flatMap_cons, Function.update_self, same l₁ outside.1, same l₂ outside.2]

theorem half_setChain_other (apart : h' ≠ h) : (L.setChain h i c).half h' = L.half h' := by
  simp [half, setChain, Function.update_of_ne apart]

theorem half_setChain_perm (member : i ∈ (L.tree h).inorder) (distinct : (L.tree h).inorder.Nodup) :
    ((L.setChain h i c).half h).Perm (c ++ (L.setChain h i []).half h) := by
  rcases List.append_of_mem member with ⟨l₁, l₂, split⟩
  rw [split, List.perm_middle.nodup_iff, List.nodup_cons] at distinct
  simp only [half, setChain, Function.update_self, split, flatMap_update distinct.1, List.nil_append]
  exact List.perm_append_comm_assoc _ _ _

theorem blocks_perm (member : i ∈ (L.tree h).inorder) (distinct : (L.tree h).inorder.Nodup) :
    L.blocks.Perm (L.chain h i ++ L.others h i) := by
  have moved : ((L.setChain h i (L.chain h i)).half h).Perm (L.chain h i ++ (L.setChain h i []).half h) :=
    half_setChain_perm member distinct
  rw [setChain_eq_self] at moved
  cases h with
  | bids =>
    have apart : Half.asks ≠ Half.bids := by decide
    rw [others, blocks, blocks, half_setChain_other apart, ← List.append_assoc]
    exact moved.append_right _
  | asks =>
    have apart : Half.bids ≠ Half.asks := by decide
    rw [others, blocks, blocks, half_setChain_other apart]
    exact (moved.append_left _).trans (List.perm_append_comm_assoc _ _ _)

theorem mem_blocks {block : Nat × List Nat} :
    block ∈ L.blocks ↔ ∃ h, ∃ i ∈ (L.tree h).inorder, block ∈ L.chain h i := by
  simp only [blocks, half, List.mem_append, List.mem_flatMap]
  constructor
  · intro found
    rcases found with ⟨i, member, inside⟩ | ⟨i, member, inside⟩
    · exact ⟨.bids, i, member, inside⟩
    · exact ⟨.asks, i, member, inside⟩
  · intro found
    rcases found with ⟨h, i, member, inside⟩
    cases h with
    | bids => exact .inl ⟨i, member, inside⟩
    | asks => exact .inr ⟨i, member, inside⟩

theorem mem_others {n : Nat} (member : j ∈ (L.tree h').inorder) (apart : ¬(h' = h ∧ j = i))
    (inside : n ∈ (L.chain h' j).map Prod.fst) : n ∈ (L.others h i).map Prod.fst := by
  rw [List.mem_map] at inside ⊢
  rcases inside with ⟨block, held, rfl⟩
  refine ⟨block, mem_blocks.mpr ⟨h', j, member, ?_⟩, rfl⟩
  rw [setChain_of_ne apart]
  exact held

def rungs (L : Layout) (b : OrderBook) (h : Half) (cells : List Nat) : Ladder :=
  cells.map fun i => ((b.maps h).key i, (L.chain h i).queue b.nodes)

def ladder (L : Layout) (b : OrderBook) (h : Half) : Ladder := L.rungs b h (L.tree h).inorder

theorem rungs_append (l₁ l₂ : List Nat) (b : OrderBook) : L.rungs b h (l₁ ++ l₂) = L.rungs b h l₁ ++ L.rungs b h l₂ :=
  List.map_append

theorem ladder_split {l₁ l₂ : List Nat} (b : OrderBook) (split : (L.tree h).inorder = l₁ ++ i :: l₂) :
    L.ladder b h = L.rungs b h l₁ ++ ((b.maps h).key i, (L.chain h i).queue b.nodes) :: L.rungs b h l₂ := by
  rw [ladder, split, rungs_append]
  rfl

theorem rungs_congr {L' : Layout} {b b' : OrderBook} {cells : List Nat}
    (same : ∀ i ∈ cells, (b'.maps h).key i = (b.maps h).key i ∧
      (L'.chain h i).queue b'.nodes = (L.chain h i).queue b.nodes) :
    L'.rungs b' h cells = L.rungs b h cells := by
  apply List.map_congr_left
  intro i member
  rw [(same i member).1, (same i member).2]

theorem half_setTree_other {tree : RBTree Nat} (apart : h' ≠ h) : (L.setTree h tree).half h' = L.half h' := by
  simp [half, setTree, Function.update_of_ne apart]

theorem blocks_setTree_same {tree : RBTree Nat} (same : tree.inorder = (L.tree h).inorder) :
    (L.setTree h tree).blocks = L.blocks := by
  have halves : ∀ h', (L.setTree h tree).half h' = L.half h' := by
    intro h'
    by_cases here : h' = h
    · subst here
      simp [half, setTree, same]
    · exact half_setTree_other here
  rw [blocks, blocks, halves, halves]

theorem blocks_without {tree : RBTree Nat} {l₁ l₂ : List Nat} (split : (L.tree h).inorder = l₁ ++ i :: l₂)
    (distinct : (L.tree h).inorder.Nodup) (order : tree.inorder = l₁ ++ l₂) :
    (L.setTree h tree).blocks = L.others h i := by
  rw [split, List.perm_middle.nodup_iff, List.nodup_cons] at distinct
  have here : (L.setTree h tree).half h = (L.setChain h i []).half h := by
    simp only [half, setTree, setChain, Function.update_self, split, order, flatMap_update distinct.1, List.nil_append,
      List.flatMap_append]
  cases h with
  | bids =>
    have apart : Half.asks ≠ Half.bids := by decide
    rw [others, blocks, blocks, here, half_setTree_other apart, half_setChain_other apart]
  | asks =>
    have apart : Half.bids ≠ Half.asks := by decide
    rw [others, blocks, blocks, here, half_setTree_other apart, half_setChain_other apart]

theorem others_new {tree : RBTree Nat} {l₁ l₂ : List Nat} (order : tree.inorder = l₁ ++ i :: l₂)
    (distinct : tree.inorder.Nodup) (split : (L.tree h).inorder = l₁ ++ l₂) :
    (L.setTree h tree).others h i = L.blocks := by
  have here : ((L.setTree h tree).tree h).inorder = l₁ ++ i :: l₂ := by
    rw [setTree]
    simp only [Function.update_self]
    exact order
  have back := blocks_without here (here ▸ order ▸ distinct) split
  rw [← back]
  simp [setTree]

end Layout

namespace OrderBook

/-- The book keeps exactly the nodes and orders of the layout. -/
structure Rep (b : OrderBook) (cap : Nat) (L : Layout) : Prop where
  valid : ∀ h, RBPriceIndex.Valid (b.maps h) cap (L.tree h)
  order : ∀ h, (b.maps h).before_ = h.compare
  stock : Stock b L.blocks
  levels : ∀ h, ∀ i ∈ (L.tree h).inorder, Level b.nodes h ((b.maps h).key i) (b.level h i) (L.chain h i)

variable {b b' : OrderBook} {cap : Nat} {L : Layout} {h : Half} {i : Nat} {lvl : PriceLevel} {c : Chain}

theorem Rep.focus (rep : Rep b cap L) (member : i ∈ (L.tree h).inorder) : Stock b (L.chain h i ++ L.others h i) :=
  rep.stock.perm (Layout.blocks_perm member (rep.valid h).nodup)

theorem Rep.cell_ne_nil (rep : Rep b cap L) (member : i ∈ (L.tree h).inorder) : i ≠ RBPriceIndex.NIL := by
  intro nil
  rw [nil] at member
  exact (rep.valid h).sentinel_not_mem member

theorem setMap_self (t : RBPriceIndex) : (b.setMap h t).maps h = t := Function.update_self ..

theorem setMap_of_ne {h' : Half} (apart : h' ≠ h) (t : RBPriceIndex) : (b.setMap h t).maps h' = b.maps h' :=
  Function.update_of_ne apart ..

theorem setMap_setMap (t t' : RBPriceIndex) : (b.setMap h t).setMap h t' = b.setMap h t' := by
  simp only [setMap, Function.update_idem]

theorem setLevel_key (h' : Half) (j : Nat) : ((b.setLevel h i lvl).maps h').key j = (b.maps h').key j := by
  rw [setLevel]
  by_cases same : h' = h
  · subst same
    rw [setMap_self]
    by_cases here : j = i
    · subst here
      simp [RBPriceIndex.key, RBPriceIndex.setLevel]
    · simp [RBPriceIndex.key, RBPriceIndex.setLevel, Function.update_of_ne here]
  · rw [setMap_of_ne same]

theorem setLevel_level_self : (b.setLevel h i lvl).level h i = lvl := by
  rw [level, setLevel, setMap_self]
  simp [RBPriceIndex.setLevel]

theorem setLevel_level_of_ne {h' : Half} {j : Nat} (apart : ¬(h' = h ∧ j = i)) :
    (b.setLevel h i lvl).level h' j = b.level h' j := by
  rw [level, level, setLevel]
  by_cases same : h' = h
  · subst same
    have other : j ≠ i := fun equal => apart ⟨rfl, equal⟩
    rw [setMap_self]
    simp [RBPriceIndex.setLevel, Function.update_of_ne other]
  · rw [setMap_of_ne same]

/-- Everything is represented but the level of one cell. -/
structure Spare (b : OrderBook) (cap : Nat) (L : Layout) (h : Half) (i : Nat) : Prop where
  valid : ∀ h, RBPriceIndex.Valid (b.maps h) cap (L.tree h)
  order : ∀ h, (b.maps h).before_ = h.compare
  levels : ∀ h', ∀ j ∈ (L.tree h').inorder, ¬(h' = h ∧ j = i) →
    Level b.nodes h' ((b.maps h').key j) (b.level h' j) (L.chain h' j)

theorem Rep.spare (rep : Rep b cap L) (h : Half) (i : Nat) : Spare b cap L h i :=
  ⟨rep.valid, rep.order, fun h' j inside _ => rep.levels h' j inside⟩

theorem Spare.put (rep : Spare b cap L h i) (member : i ∈ (L.tree h).inorder) (frame : Frame (L.others h i) b b')
    (stock : Stock b' (c ++ L.others h i)) (level : Level b'.nodes h ((b.maps h).key i) lvl c) :
    Rep (b'.setLevel h i lvl) cap (L.setChain h i c) := by
  refine ⟨?_, ?_, ?_, ?_⟩
  · intro h'
    by_cases same : h' = h
    · subst same
      rw [setLevel, setMap_self, frame.maps]
      exact RBPriceIndex.setLevel_valid (rep.valid h') i lvl
    · rw [setLevel, setMap_of_ne same, frame.maps]
      exact rep.valid h'
  · intro h'
    by_cases same : h' = h
    · subst same
      rw [setLevel, setMap_self, frame.maps]
      exact rep.order h'
    · rw [setLevel, setMap_of_ne same, frame.maps]
      exact rep.order h'
  · have member' : i ∈ ((L.setChain h i c).tree h).inorder := member
    have moved := Layout.blocks_perm member' (rep.valid h).nodup
    rw [Layout.setChain_self, Layout.others_setChain] at moved
    refine (stock.perm moved.symm).congr (b'.setLevel h i lvl) rfl rfl rfl rfl rfl ?_
    intro n q inside
    exact ⟨rfl, stock.queued n q (moved.mem_iff.mp inside)⟩
  · intro h' j inside
    rw [setLevel_key, frame.maps]
    by_cases same : h' = h ∧ j = i
    · rcases same with ⟨rfl, rfl⟩
      rw [setLevel_level_self, Layout.setChain_self]
      exact level
    · rw [setLevel_level_of_ne same, Layout.setChain_of_ne same]
      have kept := rep.levels h' j inside same
      have payload : b'.level h' j = b.level h' j := by rw [OrderBook.level, OrderBook.level, frame.maps]
      rw [payload]
      exact kept.congr fun n held => frame.nodes n (Layout.mem_others inside same held)

theorem Spare.put_ladder {l₁ l₂ : List Nat} (c : Chain) (lvl : PriceLevel) (rep : Spare b cap L h i)
    (split : (L.tree h).inorder = l₁ ++ i :: l₂)
    (frame : Frame (L.others h i) b b') :
    (L.setChain h i c).ladder (b'.setLevel h i lvl) =
      Function.update (L.ladder b) h
        (L.rungs b h l₁ ++ ((b.maps h).key i, c.queue b'.nodes) :: L.rungs b h l₂) := by
  have distinct := (rep.valid h).nodup
  rw [split, List.perm_middle.nodup_iff, List.nodup_cons, List.mem_append, not_or] at distinct
  have keep : ∀ h' j, j ∈ (L.tree h').inorder → ¬(h' = h ∧ j = i) →
      ((b'.setLevel h i lvl).maps h').key j = (b.maps h').key j ∧
        ((L.setChain h i c).chain h' j).queue (b'.setLevel h i lvl).nodes = (L.chain h' j).queue b.nodes := by
    intro h' j inside apart
    rw [setLevel_key, frame.maps, Layout.setChain_of_ne apart]
    exact ⟨rfl, Chain.queue_congr_nodes fun n held => frame.nodes n (Layout.mem_others inside apart held)⟩
  funext h'
  by_cases same : h' = h
  · subst same
    rw [Function.update_self, Layout.ladder, Layout.setChain_tree, split, Layout.rungs_append]
    congr 1
    · apply Layout.rungs_congr
      intro j member
      refine keep h' j (by rw [split]; exact List.mem_append_left _ member) fun equal => ?_
      exact distinct.1.1 (equal.2 ▸ member)
    · rw [Layout.rungs, List.map_cons, setLevel_key, frame.maps, Layout.setChain_self]
      congr 1
      apply Layout.rungs_congr
      intro j member
      refine keep h' j (by rw [split]; exact List.mem_append_right _ (List.mem_cons_of_mem _ member)) fun equal => ?_
      exact distinct.1.2 (equal.2 ▸ member)
  · rw [Function.update_of_ne same, Layout.ladder, Layout.setChain_tree]
    apply Layout.rungs_congr
    intro j member
    exact keep h' j member fun equal => same equal.1

theorem Layout.setTree_self {tree : RBTree Nat} : (L.setTree h tree).tree h = tree := Function.update_self ..

theorem Layout.setTree_of_ne {h' : Half} {tree : RBTree Nat} (apart : h' ≠ h) : (L.setTree h tree).tree h' = L.tree h' :=
  Function.update_of_ne apart ..

theorem Rep.setMap {t : RBPriceIndex} {tree : RBTree Nat} (rep : Rep b cap L) (valid : RBPriceIndex.Valid t cap tree)
    (order : t.before_ = h.compare) (cells : ∀ j ∈ tree.inorder, j ∈ (L.tree h).inorder)
    (kv : ∀ j ∈ tree.inorder, t.kv j = (b.maps h).kv j) (frame : Frame (L.setTree h tree).blocks b b')
    (stock : Stock b' (L.setTree h tree).blocks) :
    Rep (b'.setMap h t) cap (L.setTree h tree) ∧
      (L.setTree h tree).ladder (b'.setMap h t) = Function.update (L.ladder b) h (L.rungs b h tree.inorder) := by
  have nodes : ∀ h' j, j ∈ ((L.setTree h tree).tree h').inorder → ∀ n ∈ (L.chain h' j).map Prod.fst,
      (b'.setMap h t).nodes n = b.nodes n := by
    intro h' j inside n held
    rcases List.mem_map.mp held with ⟨block, chained, rfl⟩
    exact frame.nodes _ (List.mem_map.mpr ⟨block, Layout.mem_blocks.mpr ⟨h', j, inside, chained⟩, rfl⟩)
  refine ⟨⟨?_, ?_, ?_, ?_⟩, ?_⟩
  · intro h'
    by_cases same : h' = h
    · subst same
      rw [setMap_self, Layout.setTree_self]
      exact valid
    · rw [setMap_of_ne same, Layout.setTree_of_ne same, frame.maps]
      exact rep.valid h'
  · intro h'
    by_cases same : h' = h
    · subst same
      rw [setMap_self]
      exact order
    · rw [setMap_of_ne same, frame.maps]
      exact rep.order h'
  · refine stock.congr (b'.setMap h t) rfl rfl rfl rfl rfl ?_
    intro n q inside
    exact ⟨rfl, stock.queued n q inside⟩
  · intro h' j inside
    have chained := nodes h' j inside
    rw [OrderBook.level, RBPriceIndex.key]
    by_cases same : h' = h
    · subst same
      rw [Layout.setTree_self] at inside
      rw [setMap_self, kv j inside]
      exact (rep.levels h' j (cells j inside)).congr chained
    · rw [Layout.setTree_of_ne same] at inside
      rw [setMap_of_ne same, frame.maps]
      exact (rep.levels h' j inside).congr chained
  · funext h'
    by_cases same : h' = h
    · subst same
      rw [Function.update_self, Layout.ladder, Layout.setTree_self]
      apply Layout.rungs_congr
      intro j inside
      have chained := nodes h' j (by rw [Layout.setTree_self]; exact inside)
      rw [setMap_self, RBPriceIndex.key, RBPriceIndex.key, kv j inside]
      exact ⟨rfl, Chain.queue_congr_nodes chained⟩
    · rw [Function.update_of_ne same, Layout.ladder, Layout.setTree_of_ne same]
      apply Layout.rungs_congr
      intro j inside
      have chained := nodes h' j (by rw [Layout.setTree_of_ne same]; exact inside)
      rw [setMap_of_ne same, frame.maps]
      exact ⟨rfl, Chain.queue_congr_nodes chained⟩

theorem Rep.drop (rep : Rep b cap L) (member : i ∈ (L.tree h).inorder) (frame : Frame (L.others h i) b b')
    (stock : Stock b' (L.others h i)) (lvl : PriceLevel) :
    ∃ t L' l₁ l₂, ((b'.setLevel h i lvl).maps h).erase i = some t ∧ Rep (b'.setMap h t) cap L' ∧
      (L.tree h).inorder = l₁ ++ i :: l₂ ∧
      L'.ladder (b'.setMap h t) = Function.update (L.ladder b) h (L.rungs b h l₁ ++ L.rungs b h l₂) := by
  have valid := RBPriceIndex.setLevel_valid (rep.valid h) i lvl
  rcases RBPriceIndex.erase_spec valid member with ⟨t, tree, l₁, l₂, call, erased⟩
  have distinct := (rep.valid h).nodup
  have blocks := Layout.blocks_without erased.split distinct erased.order
  rw [← blocks] at frame stock
  rw [erased.split, List.perm_middle.nodup_iff, List.nodup_cons] at distinct
  have kept : ∀ j ∈ tree.inorder, j ∈ (L.tree h).inorder ∧ j ≠ i := by
    intro j inside
    rw [erased.order] at inside
    refine ⟨?_, fun same => distinct.1 (same ▸ inside)⟩
    rw [erased.split]
    simp only [List.mem_append, List.mem_cons] at inside ⊢
    tauto
  have kv : ∀ j ∈ tree.inorder, t.kv j = (b.maps h).kv j := by
    intro j inside
    rw [erased.kv]
    exact Function.update_of_ne (kept j inside).2 ..
  have rebuilt := rep.setMap erased.valid (erased.cmp.trans (rep.order h)) (fun j inside => (kept j inside).1) kv frame stock
  refine ⟨t, L.setTree h tree, l₁, l₂, ?_, rebuilt.1, erased.split, ?_⟩
  · rw [setLevel, setMap_self, frame.maps]
    exact call
  · rw [rebuilt.2, erased.order, Layout.rungs_append]

theorem Rep.grow {t : RBPriceIndex} {tree : RBTree Nat} {l₁ l₂ : List Nat} {price : PriceTick} (rep : Rep b cap L)
    (valid : RBPriceIndex.Valid t cap tree) (compare : t.before_ = (b.maps h).before_)
    (split : (L.tree h).inorder = l₁ ++ l₂) (order : tree.inorder = l₁ ++ i :: l₂)
    (kv : t.kv = Function.update (b.maps h).kv i (price, {})) (frame : Frame L.blocks (b.setMap h t) b')
    (stock : Stock b' (c ++ L.blocks)) (level : Level b'.nodes h price lvl c) :
    Rep (b'.setLevel h i lvl) cap ((L.setTree h tree).setChain h i c) ∧
      ((L.setTree h tree).setChain h i c).ladder (b'.setLevel h i lvl) =
        Function.update (L.ladder b) h (L.rungs b h l₁ ++ (price, c.queue b'.nodes) :: L.rungs b h l₂) := by
  have distinct := valid.nodup
  have others := Layout.others_new order distinct split
  rw [order, List.perm_middle.nodup_iff, List.nodup_cons] at distinct
  have old : ∀ j ∈ tree.inorder, j ≠ i → j ∈ (L.tree h).inorder := by
    intro j inside apart
    rw [order] at inside
    rw [split]
    simp only [List.mem_append, List.mem_cons] at inside ⊢
    tauto
  have same_kv : ∀ j, j ≠ i → t.kv j = (b.maps h).kv j := by
    intro j apart
    rw [kv, Function.update_of_ne apart]
  have spare : Spare (b.setMap h t) cap (L.setTree h tree) h i := by
    refine ⟨?_, ?_, ?_⟩
    · intro h'
      by_cases same : h' = h
      · subst same
        rw [setMap_self, Layout.setTree_self]
        exact valid
      · rw [setMap_of_ne same, Layout.setTree_of_ne same]
        exact rep.valid h'
    · intro h'
      by_cases same : h' = h
      · subst same
        rw [setMap_self]
        exact compare.trans (rep.order h')
      · rw [setMap_of_ne same]
        exact rep.order h'
    · intro h' j inside apart
      rw [OrderBook.level, RBPriceIndex.key]
      by_cases same : h' = h
      · subst same
        have other : j ≠ i := fun equal => apart ⟨rfl, equal⟩
        rw [Layout.setTree_self] at inside
        rw [setMap_self, same_kv j other]
        exact rep.levels h' j (old j inside other)
      · rw [Layout.setTree_of_ne same] at inside
        rw [setMap_of_ne same]
        exact rep.levels h' j inside
  have member : i ∈ ((L.setTree h tree).tree h).inorder := by
    rw [Layout.setTree_self, order]
    simp
  have named : ((b.setMap h t).maps h).key i = price := by
    rw [setMap_self, RBPriceIndex.key, kv, Function.update_self]
  have inside : ((L.setTree h tree).tree h).inorder = l₁ ++ i :: l₂ := by rw [Layout.setTree_self, order]
  rw [← others] at frame stock
  refine ⟨spare.put member frame stock (by rw [named]; exact level), ?_⟩
  have rungs : ∀ l : List Nat, (∀ j ∈ l, j ≠ i) → (L.setTree h tree).rungs (b.setMap h t) h l = L.rungs b h l := by
    intro l apart
    apply Layout.rungs_congr
    intro j here
    rw [setMap_self, RBPriceIndex.key, RBPriceIndex.key, same_kv j (apart j here)]
    exact ⟨rfl, rfl⟩
  rw [spare.put_ladder c lvl inside frame, named]
  rw [rungs l₁ fun j here same => distinct.1 (List.mem_append_left _ (same ▸ here))]
  rw [rungs l₂ fun j here same => distinct.1 (List.mem_append_right _ (same ▸ here))]
  funext h'
  by_cases same : h' = h
  · subst same
    rw [Function.update_self, Function.update_self]
  · rw [Function.update_of_ne same, Function.update_of_ne same, Layout.ladder, Layout.setTree_of_ne same]
    apply Layout.rungs_congr
    intro j _
    rw [setMap_of_ne same]
    exact ⟨rfl, rfl⟩

end OrderBook

end Titan
