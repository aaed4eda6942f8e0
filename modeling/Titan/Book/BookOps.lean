import Titan.Book.BookRep

namespace Titan

open RedBlack Linked PinNode
open RBPriceIndex (NIL)

namespace OrderBook

variable {b b' : OrderBook} {cap : Nat} {L : Layout} {h : Half} {i : Nat} {lvl : PriceLevel} {c : Chain} {o : Order}
  {price : PriceTick}

/-- The sizes of a book never change, and no defensive branch is taken. -/
structure Kept (b b' : OrderBook) : Prop where
  nodeCount : b'.nodeCount = b.nodeCount
  slabSize : b'.slabSize = b.slabSize
  repairs : b'.repairs = b.repairs

theorem Kept.refl (b : OrderBook) : Kept b b := ⟨rfl, rfl, rfl⟩

theorem Kept.trans {b'' : OrderBook} (first : Kept b b') (second : Kept b' b'') : Kept b b'' :=
  ⟨second.nodeCount.trans first.nodeCount, second.slabSize.trans first.slabSize, second.repairs.trans first.repairs⟩

theorem setMap_eq_self (h : Half) : b.setMap h (b.maps h) = b := by
  rw [setMap, Function.update_eq_self]

theorem setLevel_eq_self (h : Half) (i : Nat) : b.setLevel h i (b.level h i) = b := by
  have same : (b.maps h).setLevel i (b.level h i) = b.maps h := by
    rw [RBPriceIndex.setLevel, level, Prod.eta, Function.update_eq_self]
  rw [setLevel, same, setMap_eq_self]

theorem setLevel_setLevel (lvl lvl' : PriceLevel) : (b.setLevel h i lvl).setLevel h i lvl' = b.setLevel h i lvl' := by
  simp only [setLevel, setMap, Function.update_self, Function.update_idem, RBPriceIndex.setLevel]

theorem Rep.find_eq (rep : Rep b cap L) (member : i ∈ (L.tree h).inorder) :
    (b.maps h).find ((b.maps h).key i) = some i := by
  rcases RBPriceIndex.find_spec (rep.valid h) ((b.maps h).key i) with ⟨x, found, ⟨inside, same⟩ | ⟨-, absent⟩⟩
  · rw [found, (rep.valid h).key_injective inside member same]
  · exact absurd rfl (absent i member)

theorem Rep.find_missing (rep : Rep b cap L) (absent : ∀ i ∈ (L.tree h).inorder, (b.maps h).key i ≠ price) :
    (b.maps h).find price = some NIL := by
  rcases RBPriceIndex.find_spec (rep.valid h) price with ⟨x, found, ⟨inside, same⟩ | ⟨missing, -⟩⟩
  · exact absurd same (absent x inside)
  · rw [found, missing]

/-- Nothing a reader could see has changed, nor what the pools have left. -/
structure Untouched (b b' : OrderBook) : Prop where
  nodes : b'.nodes = b.nodes
  locators : b'.locators = b.locators
  liveCount : b'.liveCount = b.liveCount
  freeNodes : b'.freeNodes = b.freeNodes
  iterate : ∀ h, (b'.maps h).iterate = (b.maps h).iterate
  levels : ∀ h, ∀ i ∈ (b.maps h).iterate, (b'.maps h).kv i = (b.maps h).kv i
  free : ∀ h, (b'.maps h).free = (b.maps h).free

theorem Untouched.refl (b : OrderBook) : Untouched b b :=
  ⟨rfl, rfl, rfl, rfl, fun _ => rfl, fun _ _ _ => rfl, fun _ => rfl⟩

theorem Untouched.setMap {t : RBPriceIndex} (iterate : t.iterate = (b.maps h).iterate)
    (levels : ∀ i ∈ (b.maps h).iterate, t.kv i = (b.maps h).kv i) (free : t.free = (b.maps h).free) :
    Untouched b (b.setMap h t) where
  nodes := rfl
  locators := rfl
  liveCount := rfl
  freeNodes := rfl
  iterate h' := by
    by_cases here : h' = h
    · subst here
      rw [setMap_self]
      exact iterate
    · rw [setMap_of_ne here]
  levels h' := by
    by_cases here : h' = h
    · subst here
      rw [setMap_self]
      exact levels
    · rw [setMap_of_ne here]
      exact fun _ _ => rfl
  free h' := by
    by_cases here : h' = h
    · subst here
      rw [setMap_self]
      exact free
    · rw [setMap_of_ne here]

inductive Found (b : OrderBook) (cap : Nat) (L : Layout) (h : Half) (price : PriceTick) :
    OrderBook → Except Exception (Option Nat) → Prop
  | present {i : Nat} (member : i ∈ (L.tree h).inorder) (same : (b.maps h).key i = price) :
      Found b cap L h price b (.ok (some i))
  | full (missing : (b.maps h).find price = some NIL) (exhausted : (b.maps h).free = []) :
      Found b cap L h price b (.error .badAlloc)
  | undone {b' : OrderBook} {L' : Layout} (missing : (b.maps h).find price = some NIL)
      (rep : Rep b' cap L') (ladder : L'.ladder b' = L.ladder b) (kept : Kept b b') (exhausted : b.freeNodes = [])
      (untouched : Untouched b b') : Found b cap L h price b' (.ok none)
  | opened {b' : OrderBook} {L' : Layout} {z n : Nat} {l₁ l₂ : Ladder} (missing : (b.maps h).find price = some NIL)
      (spare : (b.maps h).free ≠ [] ∧ b.freeNodes ≠ []) (rep : Rep b' cap L')
      (member : z ∈ (L'.tree h).inorder) (same : (b'.maps h).key z = price) (chain : L'.chain h z = [(n, [])])
      (split : L.ladder b h = l₁ ++ l₂) (absent : ∀ rung ∈ l₁ ++ l₂, rung.1 ≠ price)
      (ladder : L'.ladder b' = Function.update (L.ladder b) h (l₁ ++ (price, []) :: l₂)) (kept : Kept b b')
      (locators : b'.locators = b.locators) :
      Found b cap L h price b' (.ok (some z))

theorem findOrCreateLevel_spec (rep : Rep b cap L) (h : Half) (price : PriceTick) :
    ∃ b' found, b.findOrCreateLevel h price = some (b', found) ∧ Found b cap L h price b' found := by
  rcases RBPriceIndex.tryEmplace_spec (rep.valid h) price with ⟨t, result, call, emplaced⟩
  cases emplaced with
  | present member same =>
    refine ⟨b, _, ?_, .present member same⟩
    simp only [findOrCreateLevel, call, Option.bind_eq_bind, Option.bind_some, setMap_eq_self]
  | full absent exhausted =>
    refine ⟨b, _, ?_, .full (rep.find_missing absent) exhausted⟩
    simp only [findOrCreateLevel, call, Option.bind_eq_bind, Option.bind_some, setMap_eq_self]
  | @fresh z _ tree l₁ l₂ absent popped valid split order kv compare =>
    have stock : Stock (b.setMap h t) L.blocks := by
      refine rep.stock.congr (b.setMap h t) rfl rfl rfl rfl rfl ?_
      intro n q inside
      exact ⟨rfl, rep.stock.queued n q inside⟩
    have outside := (rep.valid h).free_not_mem (z := z) (by rw [popped]; exact List.mem_cons_self)
    cases stack : b.freeNodes with
    | nil =>
      have inside : z ∈ tree.inorder := by
        rw [order]
        simp
      rcases RBPriceIndex.erase_spec valid inside with ⟨t', tree', l₁', l₂', undo, erased⟩
      have same : tree'.inorder = (L.tree h).inorder := by
        have distinct := valid.nodup
        rw [order, List.perm_middle.nodup_iff, List.nodup_cons, List.mem_append, not_or] at distinct
        have both : l₁ ++ z :: l₂ = l₁' ++ z :: l₂' := order.symm.trans erased.split
        have parts := (List.append_cons_inj_of_notMem distinct.1.1 distinct.1.2).mp both
        rw [erased.order, split, parts.1, parts.2.2]
      have other : ∀ j ∈ tree'.inorder, t'.kv j = (b.maps h).kv j := by
        intro j held
        have apart : j ≠ z := fun equal => outside.1 (same ▸ equal ▸ held)
        rw [erased.kv, kv, Function.update_of_ne apart]
      have cells : ∀ j ∈ tree'.inorder, j ∈ (L.tree h).inorder := by
        rw [same]
        exact fun j held => held
      have blocks := Layout.blocks_setTree_same same
      have rebuilt := rep.setMap erased.valid ((erased.cmp.trans compare).trans (rep.order h)) cells other
        (Frame.refl _ b) (blocks ▸ rep.stock)
      have untouched : Untouched b (b.setMap h t') := by
        apply Untouched.setMap
        · rw [erased.valid.iterate_eq, (rep.valid h).iterate_eq, same]
        · rw [(rep.valid h).iterate_eq, ← same]
          exact other
        · rw [erased.pushed, popped]
      refine ⟨b.setMap h t', .ok none, ?_, .undone (rep.find_missing absent) rebuilt.1 ?_ ⟨rfl, rfl, rfl⟩ stack untouched⟩
      · have none : (b.setMap h t).allocNode = (b.setMap h t, INVALID_INDEX) := allocNode_nil stack
        simp only [findOrCreateLevel, call, Option.bind_eq_bind, Option.bind_some, none, if_pos, setMap_self, undo,
          setMap_setMap]
      · rw [rebuilt.2, same]
        exact Function.update_eq_self ..
    | cons n free =>
      rcases allocNode_cons stock stack with ⟨b₂, taken, grown, frame, nodes, locators, -, real⟩
      have payload : b₂.level h z = {} := by
        rw [level, frame.maps, setMap_self, kv, Function.update_self]
      have level : Level b₂.nodes h price { b₂.level h z with price := price, head := n, tail := n } [(n, [])] := by
        rw [payload]
        refine ⟨rfl, ?_, rfl, rfl, ?_, rfl, rfl⟩
        · simp only [List.map_cons, List.map_nil, Segment, nodes, Function.update_self]
          exact ⟨rfl, rfl, trivial⟩
        · intro o held
          cases held
      rcases rep.grow valid compare split order kv frame grown level with ⟨rep', ladder⟩
      have named : ((b₂.setLevel h z { b₂.level h z with price := price, head := n, tail := n }).maps h).key z = price := by
        rw [setLevel_key, frame.maps, setMap_self, RBPriceIndex.key, kv, Function.update_self]
      have spare : (b.maps h).free ≠ [] ∧ b.freeNodes ≠ [] := by
        rw [popped, stack]
        exact ⟨List.cons_ne_nil _ _, List.cons_ne_nil _ _⟩
      refine ⟨_, .ok (some z), ?_,
        .opened (rep.find_missing absent) spare rep' ?_ named Layout.setChain_self ?_ ?_ ladder ?_ locators⟩
      · simp only [findOrCreateLevel, call, Option.bind_eq_bind, Option.bind_some, taken, if_neg real]
      · rw [Layout.setChain_tree, Layout.setTree_self, order]
        simp
      · rw [Layout.ladder, split, Layout.rungs_append]
      · rw [← Layout.rungs_append, ← split]
        intro rung held
        rcases List.mem_map.mp held with ⟨j, inside, rfl⟩
        exact absent j inside
      · exact ⟨frame.nodeCount, frame.slabSize, frame.repairs⟩

theorem pushOrder_spec (rep : Rep b cap L) (member : i ∈ (L.tree h).inorder) (nonempty : L.chain h i ≠ [])
    (unused : (b.locators o.id.toNat).node = INVALID_INDEX) (within : o.id.toNat < b.slabSize)
    (home : o.price = (b.maps h).key i ∧ Half.ofSide o.side = h) :
    (b.pushOrder h i o = (b, false) ∧ (b.nodes (b.level h i).tail).full = true ∧ b.freeNodes = []) ∨
      ((b.nodes (b.level h i).tail).full = true → b.freeNodes ≠ []) ∧
      ∃ b' L' l₁ l₂, b.pushOrder h i o = (b', true) ∧ Rep b' cap L' ∧ Kept b b' ∧
        (L.tree h).inorder = l₁ ++ i :: l₂ ∧
        L'.ladder b' = Function.update (L.ladder b) h
          (L.rungs b h l₁ ++ ((b.maps h).key i, (L.chain h i).queue b.nodes ++ [o]) :: L.rungs b h l₂) := by
  rcases ensureTailWithSpace_spec (rep.focus member) (rep.levels h i member) nonempty with
    ⟨call, full, exhausted⟩ | ⟨b₁, lvl₁, n, c, q, call, ensured, spare⟩
  · refine .inl ⟨?_, full, exhausted⟩
    simp only [pushOrder, call, if_pos, setLevel_eq_self]
  · refine .inr ⟨spare, ?_⟩
    have front : ((c ++ [(n, q)]) ++ L.others h i).Perm ((n, q) :: (c ++ L.others h i)) := by
      rw [List.append_assoc]
      exact List.perm_middle
    have stock₁ := ensured.stock.perm front
    rcases insert_spec (stock₁.queued n q List.mem_cons_self) ensured.room o with
      ⟨node, s, inserted, fresh, low, queued, slots, next, prev⟩
    have apart := stock₁.fst_not_mem
    rw [List.map_append, List.mem_append, not_or] at apart
    have valid : s ≠ INVALID_INDEX := by
      intro same
      rw [same] at low
      exact absurd low (by decide)
    let lvl₂ := { lvl₁ with totalQty := lvl₁.totalQty + o.remaining.toUInt64, orderCount := lvl₁.orderCount + 1 }
    let b₂ : OrderBook := { b₁.setNode n node with
      locators := Function.update b₁.locators o.id.toNat
        { node := n, slot := s, price := o.price, remaining := o.remaining, side := o.side }
      liveCount := b₁.liveCount + 1 }
    have result : b.pushOrder h i o = (b₂.setLevel h i lvl₂, true) := by
      simp only [pushOrder, call, if_neg ensured.valid]
      rw [show (b₁.setLevel h i lvl₁).nodes n = b₁.nodes n from rfl, inserted]
      simp only [if_neg valid]
      rw [show (b₁.setLevel h i lvl₁).setNode n node = (b₁.setNode n node).setLevel h i lvl₁ from rfl, setLevel_setLevel]
      rfl
    have stock₂ : Stock b₂ ((c ++ [(n, q ++ [s])]) ++ L.others h i) := by
      have back : ((n, q ++ [s]) :: (c ++ L.others h i)).Perm ((c ++ [(n, q ++ [s])]) ++ L.others h i) := by
        rw [List.append_assoc]
        exact List.perm_middle.symm
      refine Stock.perm (b := b₂) (stock₁.inserted queued fresh slots ?_ ?_ rfl rfl rfl rfl rfl rfl) back
      · rw [ensured.locators]
        exact unused
      · rw [ensured.frame.slabSize]
        exact within
    have level₂ := ensured.level.pushed node lvl₂ apart.1 fresh next prev slots home rfl rfl rfl rfl rfl
    have frame₂ : Frame (L.others h i) b b₂ := by
      refine ensured.frame.trans ⟨?_, rfl, rfl, rfl, rfl⟩
      intro m held
      have other : m ≠ n := fun same => apart.2 (same ▸ held)
      exact Function.update_of_ne other ..
    rcases List.append_of_mem member with ⟨l₁, l₂, split⟩
    refine ⟨_, _, l₁, l₂, result, (rep.spare h i).put member frame₂ stock₂ level₂.1, ⟨?_, ?_, ?_⟩, split, ?_⟩
    · exact frame₂.nodeCount
    · exact frame₂.slabSize
    · exact frame₂.repairs
    · rw [(rep.spare h i).put_ladder _ _ split frame₂, ← ensured.queue]
      exact congrArg (fun queue => Function.update (L.ladder b) h
        (L.rungs b h l₁ ++ ((b.maps h).key i, queue) :: L.rungs b h l₂)) level₂.2

/-- The book holds exactly the orders of the two ladders. -/
structure Settled (b : OrderBook) (cap : Nat) (ladders : Half → Ladder) : Prop where
  rep : ∃ L, Rep b cap L ∧ L.ladder b = ladders
  inhabited : ∀ h, ∀ rung ∈ ladders h, rung.2 ≠ []

def Live (ladders : Half → Ladder) (id : OrderId) : Prop := ∃ h, ∃ o ∈ (ladders h).orders, o.id = id

def hasRoom (b : OrderBook) (h : Half) (price : PriceTick) : Bool :=
  match (b.maps h).find price with
  | none => false
  | some i =>
    if i = NIL then !(b.maps h).free.isEmpty && !b.freeNodes.isEmpty
    else !(b.nodes (b.level h i).tail).full || !b.freeNodes.isEmpty

theorem mem_orders {L : Layout} : o ∈ (L.ladder b h).orders ↔
    ∃ i ∈ (L.tree h).inorder, ∃ spot ∈ (L.chain h i).spots, b.orderAt spot = o := by
  rw [Ladder.orders, List.mem_flatMap]
  constructor
  · intro found
    rcases found with ⟨rung, held, inside⟩
    rcases List.mem_map.mp held with ⟨i, member, rfl⟩
    exact ⟨i, member, List.mem_map.mp inside⟩
  · intro found
    rcases found with ⟨i, member, inside⟩
    exact ⟨_, List.mem_map.mpr ⟨i, member, rfl⟩, List.mem_map.mpr inside⟩

theorem mem_blocks_spots {L : Layout} {spot : Nat × Nat} :
    spot ∈ L.blocks.spots ↔ ∃ h, ∃ i ∈ (L.tree h).inorder, spot ∈ (L.chain h i).spots := by
  rcases spot with ⟨n, s⟩
  simp only [Chain.mem_spots, Layout.mem_blocks]
  constructor
  · intro found
    rcases found with ⟨q, ⟨h, i, member, inside⟩, slot⟩
    exact ⟨h, i, member, q, inside, slot⟩
  · intro found
    rcases found with ⟨h, i, member, q, inside, slot⟩
    exact ⟨q, ⟨h, i, member, inside⟩, slot⟩

theorem Rep.live_iff (rep : Rep b cap L) (id : OrderId) :
    (b.locators id.toNat).node ≠ INVALID_INDEX ↔ Live (L.ladder b) id := by
  constructor
  · intro named
    rcases rep.stock.live id.toNat named with ⟨spot, member, found⟩
    rcases mem_blocks_spots.mp member with ⟨h, i, inside, held⟩
    exact ⟨h, b.orderAt spot, mem_orders.mpr ⟨i, inside, spot, held, rfl⟩, UInt64.toNat_inj.mp found⟩
  · intro resting
    rcases resting with ⟨h, o, member, rfl⟩
    rcases mem_orders.mp member with ⟨i, inside, spot, held, rfl⟩
    have spotted := mem_blocks_spots.mpr ⟨h, i, inside, held⟩
    rw [(rep.stock.posted spot spotted).2]
    exact rep.stock.ne_invalid (rep.stock.lt_of_block (Chain.fst_mem_of_mem_spots spotted))

inductive Added (b : OrderBook) (cap : Nat) (ladders : Half → Ladder) (o : Order) : OrderBook → Bool → Prop
  | rested {b' : OrderBook} {ladder : Ladder} (within : o.id.toNat < b.slabSize) (dead : ¬Live ladders o.id)
      (room : b.hasRoom (Half.ofSide o.side) o.price = true)
      (placed : Ladder.Placed o.price o (ladders (Half.ofSide o.side)) ladder)
      (settled : Settled b' cap (Function.update ladders (Half.ofSide o.side) ladder)) :
      Added b cap ladders o b' true
  | refused {b' : OrderBook} (settled : Settled b' cap ladders) (untouched : Untouched b b')
      (why : b.slabSize ≤ o.id.toNat ∨ Live ladders o.id ∨ b.hasRoom (Half.ofSide o.side) o.price = false) :
      Added b cap ladders o b' false

theorem Settled.update {ladders : Half → Ladder} {ladder : Ladder} (settled : Settled b cap ladders) (rep : Rep b' cap L)
    (eq : L.ladder b' = Function.update ladders h ladder) (inhabited : ∀ rung ∈ ladder, rung.2 ≠ []) :
    Settled b' cap (Function.update ladders h ladder) := by
  refine ⟨⟨L, rep, eq⟩, ?_⟩
  intro h'
  by_cases same : h' = h
  · subst same
    rw [Function.update_self]
    exact inhabited
  · rw [Function.update_of_ne same]
    exact settled.inhabited h'

theorem pushOrder_joins (settled : Settled b cap (L.ladder b)) (rep : Rep b cap L) (member : i ∈ (L.tree h).inorder)
    (same : (b.maps h).key i = o.price) (half : Half.ofSide o.side = h) (within : o.id.toNat < b.slabSize)
    (unused : (b.locators o.id.toNat).node = INVALID_INDEX) (dead : ¬Live (L.ladder b) o.id) :
    ∃ b' rested, b.pushOrder h i o = (b', rested) ∧ Kept b b' ∧ Added b cap (L.ladder b) o b' rested := by
  have nonempty : L.chain h i ≠ [] := by
    intro empty
    refine settled.inhabited h _ (List.mem_map.mpr ⟨i, member, rfl⟩) ?_
    rw [empty]
    rfl
  have real : i ≠ NIL := rep.cell_ne_nil member
  rcases pushOrder_spec rep member nonempty unused within ⟨same.symm, half⟩ with
    ⟨push, full, exhausted⟩ | ⟨spare, b', L', l₁, l₂, push, rep', kept, split, ladder⟩
  · refine ⟨b, false, push, Kept.refl b, .refused settled (Untouched.refl b) (.inr (.inr ?_))⟩
    rw [half, hasRoom, ← same, rep.find_eq member]
    simp [real, full, exhausted]
  · have placed : Ladder.Placed o.price o (L.ladder b h)
        (L.rungs b h l₁ ++ (o.price, (L.chain h i).queue b.nodes ++ [o]) :: L.rungs b h l₂) := by
      rw [Layout.ladder_split b split, same]
      exact .joined ..
    have room : b.hasRoom h o.price = true := by
      rw [hasRoom, ← same, rep.find_eq member]
      cases full : (b.nodes (b.level h i).tail).full with
      | true => simp [real, full, spare full]
      | false => simp [real, full]
    rw [same] at ladder
    have settled' := settled.update rep' ladder (placed.inhabited (settled.inhabited h))
    rw [← half] at placed settled' room
    exact ⟨b', true, push, kept, .rested within dead room placed settled'⟩

theorem pushOrder_first {b₁ : OrderBook} {L₁ : Layout} {z n : Nat} {l₁ l₂ : Ladder} (settled : Settled b cap (L.ladder b))
    (rep : Rep b₁ cap L₁) (member : z ∈ (L₁.tree h).inorder) (same : (b₁.maps h).key z = o.price)
    (half : Half.ofSide o.side = h) (chain : L₁.chain h z = [(n, [])]) (split : L.ladder b h = l₁ ++ l₂)
    (absent : ∀ rung ∈ l₁ ++ l₂, rung.1 ≠ o.price)
    (ladder₁ : L₁.ladder b₁ = Function.update (L.ladder b) h (l₁ ++ (o.price, []) :: l₂))
    (within : o.id.toNat < b₁.slabSize) (unused : (b₁.locators o.id.toNat).node = INVALID_INDEX) :
    ∃ b' ladder, b₁.pushOrder h z o = (b', true) ∧ Kept b₁ b' ∧ Ladder.Placed o.price o (L.ladder b h) ladder ∧
      Settled b' cap (Function.update (L.ladder b) h ladder) := by
  rcases pushOrder_spec rep member (by rw [chain]; exact List.cons_ne_nil _ _) unused within ⟨same.symm, half⟩ with
    ⟨-, full, -⟩ | ⟨-, b', L', c₁, c₂, push, rep', kept, split', ladder⟩
  · have tail := (rep.levels h z member).tail
    rw [chain] at tail
    have block : (n, []) ∈ L₁.blocks := Layout.mem_blocks.mpr ⟨h, z, member, by rw [chain]; exact List.mem_cons_self⟩
    rw [tail] at full
    rw [show (b₁.nodes ((List.map Prod.fst [(n, ([] : List Nat))]).getLastD INVALID_INDEX)).full = false from
      (rep.stock.queued n [] block).not_full] at full
    cases full
  · have inside : L₁.ladder b₁ h = L₁.rungs b₁ h c₁ ++ (o.price, []) :: L₁.rungs b₁ h c₂ := by
      rw [Layout.ladder_split b₁ split', same, chain]
      rfl
    have parts : L₁.rungs b₁ h c₁ = l₁ ∧ L₁.rungs b₁ h c₂ = l₂ := by
      have fresh : ∀ l : Ladder, (∀ rung ∈ l, rung.1 ≠ o.price) → (o.price, []) ∉ l :=
        fun l apart held => apart _ held rfl
      rw [ladder₁, Function.update_self] at inside
      have unique := (List.append_cons_inj_of_notMem
        (fresh l₁ fun rung held => absent rung (List.mem_append_left _ held))
        (fresh l₂ fun rung held => absent rung (List.mem_append_right _ held))).mp inside
      exact ⟨unique.1.symm, unique.2.2.symm⟩
    rw [ladder₁, Function.update_idem, parts.1, parts.2, same, chain] at ladder
    have placed : Ladder.Placed o.price o (L.ladder b h) (l₁ ++ (o.price, [o]) :: l₂) := by
      rw [split]
      exact .opened l₁ l₂ absent
    exact ⟨b', _, push, kept, placed, settled.update rep' ladder (placed.inhabited (settled.inhabited h))⟩

theorem add_spec {ladders : Half → Ladder} (settled : Settled b cap ladders) (o : Order) :
    ∃ b' rested, b.add o = some (b', rested) ∧ Kept b b' ∧ Added b cap ladders o b' rested := by
  rcases settled.rep with ⟨L, rep, rfl⟩
  by_cases range : o.id.toNat ≥ b.slabSize
  · refine ⟨b, false, by rw [add, if_pos range], Kept.refl b, .refused settled (Untouched.refl b) (.inl range)⟩
  have within := Nat.not_le.mp range
  by_cases named : (b.locators o.id.toNat).node ≠ INVALID_INDEX
  · refine ⟨b, false, by rw [add, if_neg range, if_pos named], Kept.refl b, .refused settled (Untouched.refl b) (.inr (.inl ?_))⟩
    exact (rep.live_iff o.id).mp named
  have unused := not_not.mp named
  have dead : ¬Live (L.ladder b) o.id := fun resting => named ((rep.live_iff o.id).mpr resting)
  rcases findOrCreateLevel_spec rep (Half.ofSide o.side) o.price with ⟨b₁, found, call, outcome⟩
  simp only [add, if_neg range, if_neg named, addImpl, call, Option.bind_eq_bind, Option.bind_some]
  generalize half : Half.ofSide o.side = h at *
  cases outcome with
  | full missing exhausted =>
    refine ⟨b, false, rfl, Kept.refl b, .refused settled (Untouched.refl b) (.inr (.inr ?_))⟩
    rw [half, hasRoom, missing]
    simp [exhausted]
  | undone missing rep' ladder kept exhausted untouched =>
    refine ⟨b₁, false, rfl, kept, .refused ⟨⟨_, rep', ladder⟩, settled.inhabited⟩ untouched (.inr (.inr ?_))⟩
    rw [half, hasRoom, missing]
    simp [exhausted]
  | present member same =>
    rcases pushOrder_joins settled rep member same half within unused dead with ⟨b', rested, push, kept, added⟩
    exact ⟨b', rested, by simp only [push, Option.bind_some], kept, added⟩
  | opened missing spare rep₁ member same chain split absent ladder₁ kept₁ locators =>
    rcases pushOrder_first settled rep₁ member same half chain split absent ladder₁ (kept₁.slabSize ▸ within)
      (locators ▸ unused) with ⟨b', ladder, push, kept, placed, settled'⟩
    have room : b.hasRoom h o.price = true := by
      rw [hasRoom, missing]
      simp [spare]
    rw [← half] at placed settled' room
    exact ⟨b', true, by simp only [push, Option.bind_some], kept₁.trans kept, .rested within dead room placed settled'⟩

theorem Rep.prices_nodup (rep : Rep b cap L) (h : Half) : ((L.ladder b h).map Prod.fst).Nodup := by
  have sorted := (rep.valid h).sorted
  rw [Layout.ladder, Layout.rungs, List.map_map]
  exact List.pairwise_map.mpr (sorted.imp fun ordered => Compare.before_ne ordered)

theorem rung_unique {l₁ l₂ l₁' l₂' : Ladder} {q q' : List Order} (same : l₁ ++ (price, q) :: l₂ = l₁' ++ (price, q') :: l₂')
    (distinct : ((l₁ ++ (price, q) :: l₂).map Prod.fst).Nodup) : l₁ = l₁' ∧ q = q' ∧ l₂ = l₂' := by
  rw [List.map_append, List.map_cons, List.perm_middle.nodup_iff, List.nodup_cons, List.mem_append, not_or] at distinct
  have absent : ∀ l : Ladder, price ∉ l.map Prod.fst → (price, q') ∉ l :=
    fun l fresh held => fresh (List.mem_map.mpr ⟨_, held, rfl⟩)
  have parts := (List.append_cons_inj_of_notMem (absent l₁ distinct.1.1) (absent l₂ distinct.1.2)).mp same
  exact ⟨parts.1, (Prod.mk.inj parts.2.1).2, parts.2.2⟩

theorem reclaimLevel_spec {l₁ l₂ : Ladder} (rep : Rep b cap L) (member : i ∈ (L.tree h).inorder)
    (empty : (L.chain h i).queue b.nodes = []) (eq : L.ladder b h = l₁ ++ ((b.maps h).key i, []) :: l₂) :
    ∃ b' L', b.reclaimLevel h i (b.level h i) = some b' ∧ Rep b' cap L' ∧ Kept b b' ∧
      L'.ladder b' = Function.update (L.ladder b) h (l₁ ++ l₂) := by
  rcases freeLevelNodes_spec (rep.focus member) (rep.levels h i member) empty with ⟨b₁, lvl, freed, stock, frame⟩
  rcases rep.drop member frame stock lvl with ⟨t, L', c₁, c₂, erased, rep', split, ladder⟩
  refine ⟨b₁.setMap h t, L', ?_, rep', ⟨frame.nodeCount, frame.slabSize, frame.repairs⟩, ?_⟩
  · simp only [reclaimLevel, freed, Option.bind_eq_bind, Option.bind_some, erased]
  · have cut := Layout.ladder_split b split
    have parts := rung_unique (cut.symm.trans eq) (cut ▸ rep.prices_nodup h)
    rw [ladder, parts.1, parts.2.2]

theorem Rep.locate (rep : Rep b cap L) {id : OrderId} (named : (b.locators id.toNat).node ≠ INVALID_INDEX) :
    ∃ h i n s c₁ c₂ l₁ l₂, i ∈ (L.tree h).inorder ∧ L.chain h i = c₁ ++ (n, l₁ ++ s :: l₂) :: c₂ ∧
      (b.orderAt (n, s)).id = id ∧ b.locators id.toNat = b.entryAt (n, s) ∧ n < b.nodeCount := by
  rcases rep.stock.live id.toNat named with ⟨spot, member, found⟩
  have same := UInt64.toNat_inj.mp found
  rcases mem_blocks_spots.mp member with ⟨h, i, inside, held⟩
  rcases Chain.mem_spots.mp (show (spot.1, spot.2) ∈ (L.chain h i).spots from held) with ⟨q, block, slot⟩
  rcases List.append_of_mem block with ⟨c₁, c₂, chain⟩
  rcases List.append_of_mem slot with ⟨l₁, l₂, rfl⟩
  refine ⟨h, i, spot.1, spot.2, c₁, c₂, l₁, l₂, inside, chain, same, ?_, ?_⟩
  · rw [← found]
    exact (rep.stock.posted spot member).2
  · exact rep.stock.lt_of_block (Chain.fst_mem_of_mem_spots member)

inductive Canceled (cap : Nat) (ladders : Half → Ladder) (id : OrderId) : OrderBook → Bool → Prop
  | removed {b' : OrderBook} {h : Half} {o : Order} {ladder : Ladder} (same : o.id = id) (home : Half.ofSide o.side = h)
      (withdrawn : Ladder.Withdrawn o.price o (ladders h) ladder)
      (settled : Settled b' cap (Function.update ladders h ladder)) : Canceled cap ladders id b' true
  | missed {b' : OrderBook} (dead : ¬Live ladders id) (settled : Settled b' cap ladders) : Canceled cap ladders id b' false

theorem Rep.withdraw {n s : Nat} {c₁ c₂ : Chain} {l₁ l₂ : List Nat} (rep : Rep b cap L)
    (member : i ∈ (L.tree h).inorder) (chain : L.chain h i = c₁ ++ (n, l₁ ++ s :: l₂) :: c₂)
    (entry : b.locators (b.orderAt (n, s)).id.toNat = b.entryAt (n, s)) :
    ∃ node, (b.nodes n).remove s = (node, true) ∧
      ∃ b' L' q₁ q₂ r₁ r₂, ((b.setNode n node).clearSlot (b.orderAt (n, s)).id).updateAfterCancel h ((b.maps h).key i)
          (b.orderAt (n, s)).remaining = some b' ∧
        Rep b' cap L' ∧ Kept b b' ∧
        L.ladder b h = r₁ ++ ((b.maps h).key i, q₁ ++ b.orderAt (n, s) :: q₂) :: r₂ ∧
        L'.ladder b' = Function.update (L.ladder b) h
          (if q₁ ++ q₂ = [] then r₁ ++ r₂ else r₁ ++ ((b.maps h).key i, q₁ ++ q₂) :: r₂) := by
  have stock := rep.focus member
  have level := rep.levels h i member
  rw [chain] at stock level
  have front : ((c₁ ++ (n, l₁ ++ s :: l₂) :: c₂) ++ L.others h i).Perm
      ((n, l₁ ++ s :: l₂) :: ((c₁ ++ c₂) ++ L.others h i)) := List.perm_middle.append_right _
  have moved := stock.perm front
  have apart := moved.fst_not_mem
  rw [List.map_append, List.mem_append, not_or] at apart
  rcases remove_spec (moved.queued n _ List.mem_cons_self) with ⟨node, removed, queued, slots, next, prev⟩
  refine ⟨node, removed, ?_⟩
  let b₁ := (b.setNode n node).clearSlot (b.orderAt (n, s)).id
  let lvl : PriceLevel := { b.level h i with
    totalQty := (b.level h i).totalQty - (b.orderAt (n, s)).remaining.toUInt64
    orderCount := (b.level h i).orderCount - 1 }
  have frame : Frame (L.others h i) b b₁ := by
    refine ⟨?_, rfl, rfl, rfl, rfl⟩
    intro m held
    have other : m ≠ n := fun same => apart.2 (same ▸ held)
    exact Function.update_of_ne other ..
  have stock₁ : Stock b₁ ((c₁ ++ (n, l₁ ++ l₂) :: c₂) ++ L.others h i) := by
    have back : ((n, l₁ ++ l₂) :: ((c₁ ++ c₂) ++ L.others h i)).Perm ((c₁ ++ (n, l₁ ++ l₂) :: c₂) ++ L.others h i) :=
      (List.perm_middle.append_right _).symm
    refine Stock.perm (b := b₁) (moved.removed queued (fun i _ => by rw [slots]) rfl ?_ rfl rfl rfl rfl) back
    rw [← entry]
    rfl
  have level₁ := level.removed node lvl apart.1 next prev (fun i _ => by rw [slots]) rfl rfl rfl rfl rfl
  rcases List.append_of_mem member with ⟨d₁, d₂, split⟩
  have rep₂ := (rep.spare h i).put member frame stock₁ level₁.1
  have ladder₂ := (rep.spare h i).put_ladder (c₁ ++ (n, l₁ ++ l₂) :: c₂) lvl split frame
  have whole := queue_split b.nodes c₁ c₂ n s l₁ l₂
  have total := level.total_toNat stock
  have count := level.count_toNat stock
  rw [whole] at total count
  have left := level₁.2
  rw [show Function.update b.nodes n node = b₁.nodes from rfl] at left level₁
  rw [left] at ladder₂
  generalize c₁.queue b.nodes ++ l₁.map (b.nodes n).slots = q₁ at whole total count left ladder₂
  generalize l₂.map (b.nodes n).slots ++ c₂.queue b.nodes = q₂ at whole total count left ladder₂
  have call : b₁.updateAfterCancel h ((b.maps h).key i) (b.orderAt (n, s)).remaining =
      if lvl.orderCount = 0 then (b₁.setLevel h i lvl).reclaimLevel h i lvl else some (b₁.setLevel h i lvl) := by
    have found : (b₁.maps h).find ((b.maps h).key i) = some i := rep.find_eq member
    have real : i ≠ NIL := rep.cell_ne_nil member
    have enough : (b.orderAt (n, s)).remaining.toNat ≤ (b₁.level h i).totalQty.toNat := by
      refine Nat.le_trans ?_ (Nat.le_of_eq total.symm)
      rw [show b.orderAt (n, s) = (b.nodes n).slots s from rfl, quantity_append, quantity_cons]
      omega
    have some : 0 < ({ b₁.level h i with
        totalQty := (b₁.level h i).totalQty - (b.orderAt (n, s)).remaining.toUInt64 } : PriceLevel).orderCount.toNat := by
      refine Nat.lt_of_lt_of_eq ?_ count.symm
      rw [List.length_append, List.length_cons]
      omega
    have counted := takeCount_eq (b := b₁) some
    simp only [updateAfterCancel, found, Option.bind_eq_bind, Option.bind_some, if_neg real, takeQty_eq enough, counted]
    rfl
  have before : L.ladder b h = L.rungs b h d₁ ++ ((b.maps h).key i, q₁ ++ b.orderAt (n, s) :: q₂) :: L.rungs b h d₂ := by
    rw [Layout.ladder_split b split, chain, whole]
    rfl
  rw [show (b.setNode n node).clearSlot (b.orderAt (n, s)).id = b₁ from rfl, call]
  by_cases empty : q₁ ++ q₂ = []
  · have zero : lvl.orderCount = 0 := (level₁.1.count_zero_iff stock₁).mpr (left.trans empty)
    rw [empty] at ladder₂ left
    have drained : ((L.setChain h i (c₁ ++ (n, l₁ ++ l₂) :: c₂)).chain h i).queue (b₁.setLevel h i lvl).nodes = [] := by
      rw [Layout.setChain_self]
      exact left
    have here := congrFun ladder₂ h
    rw [Function.update_self] at here
    have key : ((b₁.setLevel h i lvl).maps h).key i = (b.maps h).key i := setLevel_key h i
    rw [← key] at here
    rcases reclaimLevel_spec rep₂ member drained here with ⟨b', L', reclaimed, rep', kept, ladder'⟩
    rw [setLevel_level_self] at reclaimed
    refine ⟨b', L', q₁, q₂, _, _, ?_, rep', ?_, before, ?_⟩
    · rw [if_pos zero, reclaimed]
    · exact (show Kept b (b₁.setLevel h i lvl) from ⟨rfl, rfl, rfl⟩).trans kept
    · rw [ladder', ladder₂, Function.update_idem, if_pos empty]
  · have some : lvl.orderCount ≠ 0 := fun zero => empty (left.symm.trans ((level₁.1.count_zero_iff stock₁).mp zero))
    refine ⟨b₁.setLevel h i lvl, _, q₁, q₂, _, _, ?_, rep₂, ⟨rfl, rfl, rfl⟩, before, ?_⟩
    · rw [if_neg some]
    · rw [ladder₂, if_neg empty]

theorem Rep.live_lt (rep : Rep b cap L) {id : OrderId} (live : Live (L.ladder b) id) : id.toNat < b.slabSize := by
  rcases live with ⟨h, o, member, rfl⟩
  rcases mem_orders.mp member with ⟨i, inside, spot, held, rfl⟩
  exact (rep.stock.posted spot (mem_blocks_spots.mpr ⟨h, i, inside, held⟩)).1

theorem cancel_spec {ladders : Half → Ladder} (settled : Settled b cap ladders) (id : OrderId) :
    ∃ b' canceled, b.cancel id = some (b', canceled) ∧ Kept b b' ∧ Canceled cap ladders id b' canceled := by
  rcases settled.rep with ⟨L, rep, rfl⟩
  by_cases range : id.toNat ≥ b.slabSize
  · refine ⟨b, false, by rw [cancel, if_pos range], Kept.refl b, .missed ?_ settled⟩
    intro live
    exact absurd (rep.live_lt live) (Nat.not_lt.mpr range)
  by_cases free : (b.locators id.toNat).node = INVALID_INDEX
  · refine ⟨b, false, by simp only [cancel, if_neg range, if_pos free], Kept.refl b, .missed ?_ settled⟩
    intro live
    exact (rep.live_iff id).mpr live free
  rcases rep.locate free with ⟨h, i, n, s, c₁, c₂, l₁, l₂, member, chain, rfl, entry, low⟩
  rcases rep.withdraw member chain entry with ⟨node, removed, b', L', q₁, q₂, r₁, r₂, call, rep', kept, before, after⟩
  have home : (b.orderAt (n, s)).price = (b.maps h).key i ∧ Half.ofSide (b.orderAt (n, s)).side = h := by
    apply (rep.levels h i member).home
    rw [chain, queue_split]
    simp [orderAt]
  have result : b.cancel (b.orderAt (n, s)).id = some (b', true) := by
    rw [cancel, if_neg range]
    simp only [entry]
    simp only [entryAt, if_neg (rep.stock.ne_invalid low), if_neg (Nat.not_le.mpr low), removed, home.1, home.2]
    rw [if_neg (by decide), call]
    rfl
  have withdrawn : Ladder.Withdrawn (b.orderAt (n, s)).price (b.orderAt (n, s)) (L.ladder b h)
      (if q₁ ++ q₂ = [] then r₁ ++ r₂ else r₁ ++ ((b.maps h).key i, q₁ ++ q₂) :: r₂) := by
    rw [before, home.1]
    by_cases empty : q₁ ++ q₂ = []
    · rcases List.append_eq_nil_iff.mp empty with ⟨rfl, rfl⟩
      rw [if_pos empty]
      exact .closed r₁ r₂
    · rw [if_neg empty]
      exact .kept r₁ q₁ q₂ r₂ empty
  exact ⟨b', true, result, kept, .removed rfl home.2 withdrawn
    (settled.update rep' after (withdrawn.inhabited (settled.inhabited h)))⟩

end OrderBook

end Titan
