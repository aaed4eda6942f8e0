import Titan.Book.RBInsert
import Titan.Book.RBErase
import Titan.Data.Segment

namespace Titan

open RedBlack Linked

namespace Compare

variable {cmp : Compare} {a b c : PriceTick}

theorem before_irrefl (cmp : Compare) (a : PriceTick) : cmp.before a a = false := by
  cases cmp <;> simp [before]

theorem before_trans (first : cmp.before a b = true) (second : cmp.before b c = true) :
    cmp.before a c = true := by
  cases cmp <;> simp only [before, decide_eq_true_eq, Int64.lt_iff_toInt_lt] at * <;> omega

theorem before_total (differ : a ≠ b) : cmp.before a b = true ∨ cmp.before b a = true := by
  have apart : a.toInt ≠ b.toInt := fun same => differ (Int64.toInt_inj.mp same)
  cases cmp <;> simp only [before, decide_eq_true_eq, Int64.lt_iff_toInt_lt] <;> omega

theorem before_ne (ordered : cmp.before a b = true) : a ≠ b := by
  rintro rfl
  simp [before_irrefl] at ordered

end Compare

namespace RBPriceIndex

variable {t : RBPriceIndex} {tree : RBTree Nat} {cap : Nat}

def key (t : RBPriceIndex) (i : Nat) : PriceTick := (t.kv i).1

/-- The pool holds `tree` in its links, its symmetric order in the neighbour list and
    everything else on the free list. -/
structure Valid (t : RBPriceIndex) (cap : Nat) (tree : RBTree Nat) : Prop where
  focus : Focus t.links NIL [] tree
  balanced : ∃ m, Balanced tree .black m
  sentinelColor : t.links.color NIL = .black
  sentinelParent : t.links.parent NIL = NIL
  sorted : tree.inorder.Pairwise fun i j => t.before_.before (t.key i) (t.key j) = true
  chain : Segment t.succ t.pred NIL tree.inorder NIL
  first : t.begin_ = tree.inorder.headD NIL
  count : t.size_ = tree.size
  pool : (t.free ++ tree.inorder).Perm ((List.range cap).map (· + 1))

theorem Valid.held (valid : Valid t cap tree) : Held t.links NIL [] tree :=
  ⟨valid.focus, valid.sentinelColor, valid.sentinelParent⟩

theorem Valid.nodup (valid : Valid t cap tree) : tree.inorder.Nodup := by
  have distinct := valid.focus.distinct
  simpa [cells] using distinct

theorem Valid.sentinel_not_mem (valid : Valid t cap tree) : NIL ∉ tree.inorder :=
  valid.focus.inner.sentinel_not_mem

theorem Valid.free_not_mem {z : Nat} (valid : Valid t cap tree) (member : z ∈ t.free) :
    z ∉ tree.inorder ∧ z ≠ NIL := by
  have distinct : (t.free ++ tree.inorder).Nodup :=
    valid.pool.nodup_iff.mpr (List.nodup_range.map fun a b same => by simpa using same)
  refine ⟨fun inside => (List.nodup_append.mp distinct).2.2 z member z inside rfl, ?_⟩
  have real := valid.pool.mem_iff.mp (List.mem_append_left _ member)
  simp only [List.mem_map, List.mem_range] at real
  obtain ⟨k, _, rfl⟩ := real
  simp [NIL]

theorem create_valid (cmp : Compare) (capacity : Nat) :
    Valid (create cmp capacity) (capacity % 2 ^ 32) .nil := by
  refine ⟨⟨rfl, trivial, by simp [RBTree.inorder, cells]⟩, ⟨0, .nil⟩, rfl, rfl, .nil, trivial, rfl, rfl, ?_⟩
  simp [create, RBTree.inorder]

theorem valid_of_parts {u : RBPriceIndex} {links : Store Nat} {free : List Nat} {n : Nat}
    (held : Held links NIL [] tree) (balanced : ∃ m, Balanced tree .black m)
    (sorted : tree.inorder.Pairwise fun i j => u.before_.before (u.key i) (u.key j) = true)
    (chain : Segment u.succ u.pred NIL tree.inorder NIL) (first : u.begin_ = tree.inorder.headD NIL)
    (count : n = tree.size) (pool : (free ++ tree.inorder).Perm ((List.range cap).map (· + 1))) :
    Valid { u with links := links, free := free, size_ := n } cap tree :=
  ⟨held.focus, balanced, held.color, held.parent, sorted, chain, first, count, pool⟩

structure Descended (t : RBPriceIndex) (price : PriceTick) (fs : List (Frame Nat)) (sub : RBTree Nat) : Prop where
  focus : Focus t.links NIL fs sub
  lower : ∀ i ∈ before fs, t.before_.before (t.key i) price = true
  upper : ∀ i ∈ after fs, t.before_.before price (t.key i) = true

theorem Descended.goLeft {price : PriceTick} {fs : List (Frame Nat)} {c : Color} {l r : RBTree Nat} {x : Nat}
    (descended : Descended t price fs (.node c l x r))
    (sorted : (plug fs (.node c l x r)).inorder.Pairwise fun i j => t.before_.before (t.key i) (t.key j) = true)
    (less : t.before_.before price (t.key x) = true) : Descended t price (⟨.left, c, x, r⟩ :: fs) l := by
  refine ⟨Focus.down (d := .left) descended.focus, ?_, ?_⟩
  · simpa [before] using descended.lower
  · intro i member
    simp only [after, if_true, List.cons_append, List.mem_cons, List.mem_append] at member
    rcases member with rfl | member | member
    · exact less
    · rw [inorder_plug] at sorted
      simp only [RBTree.inorder, List.pairwise_append, List.pairwise_cons] at sorted
      exact Compare.before_trans less (sorted.1.2.1.2.1.1 i member)
    · exact descended.upper i member

theorem Descended.goRight {price : PriceTick} {fs : List (Frame Nat)} {c : Color} {l r : RBTree Nat} {x : Nat}
    (descended : Descended t price fs (.node c l x r))
    (sorted : (plug fs (.node c l x r)).inorder.Pairwise fun i j => t.before_.before (t.key i) (t.key j) = true)
    (greater : t.before_.before (t.key x) price = true) : Descended t price (⟨.right, c, x, l⟩ :: fs) r := by
  refine ⟨Focus.down (d := .right) descended.focus, ?_, ?_⟩
  · intro i member
    simp only [before, if_true, List.mem_append, List.mem_singleton] at member
    rcases member with member | member | rfl
    · exact descended.lower i member
    · rw [inorder_plug] at sorted
      simp only [RBTree.inorder, List.pairwise_append, List.mem_cons] at sorted
      exact Compare.before_trans (sorted.1.2.1.2.2 i member x (.inl rfl)) greater
    · exact greater
  · simpa [after] using descended.upper

inductive Arrived (t : RBPriceIndex) (price : PriceTick) (tree : RBTree Nat) : Search → Prop
  | found {x : Nat} (member : x ∈ tree.inorder) (same : t.key x = price) : Arrived t price tree (.found x)
  | missing {fs : List (Frame Nat)} (whole : plug fs .nil = tree) (descended : Descended t price fs .nil) :
      Arrived t price tree (.missing (holder NIL fs) ((before fs).getLastD NIL) ((after fs).headD NIL))

theorem descend_spec {price : PriceTick} (fuel : Nat) {fs : List (Frame Nat)} {sub : RBTree Nat}
    (descended : Descended t price fs sub)
    (sorted : (plug fs sub).inorder.Pairwise fun i j => t.before_.before (t.key i) (t.key j) = true)
    (enough : sub.size < fuel) :
    ∃ result, t.descend price fuel (holder NIL fs) (sub.top NIL) ((before fs).getLastD NIL)
      ((after fs).headD NIL) = some result ∧ Arrived t price (plug fs sub) result := by
  induction fuel generalizing fs sub with
  | zero => omega
  | succ fuel ih =>
    cases sub with
    | nil => exact ⟨_, by simp [descend], .missing rfl descended⟩
    | node c l x r =>
      obtain ⟨real, _, _, left, right, _, _⟩ := descended.focus.inner
      simp only [descend, RBTree.top_node, real, if_false, left, right]
      simp only [RBTree.size] at enough
      by_cases equal : price = (t.kv x).1
      · rw [if_pos equal]
        exact ⟨_, rfl, .found (by simp [inorder_plug, RBTree.inorder]) equal.symm⟩
      · rw [if_neg equal]
        by_cases less : t.before_.before price (t.kv x).1 = true
        · rw [if_pos less]
          simpa [before, after, holder, plug, RBTree.join] using ih (descended.goLeft sorted less) sorted (by omega)
        · rw [if_neg less]
          have greater := (Compare.before_total equal).resolve_left less
          have next := ih (descended.goRight sorted greater) sorted (by omega)
          rw [before, if_pos rfl, ← List.append_assoc, getLastD_append] at next
          simpa [after, holder, plug, RBTree.join] using next

theorem findLoop_eq_descend (t : RBPriceIndex) (price : PriceTick) (fuel y x pred succ : Nat) :
    t.findLoop price fuel x = (t.descend price fuel y x pred succ).map fun
      | .found x => x
      | .missing _ _ _ => NIL := by
  induction fuel generalizing y x pred succ with
  | zero => rfl
  | succ fuel ih =>
    simp only [findLoop, descend]
    split
    · rfl
    · split
      · rfl
      · split
        · exact ih _ _ _ _
        · exact ih _ _ _ _

theorem Valid.descended (valid : Valid t cap tree) (price : PriceTick) : Descended t price [] tree :=
  ⟨valid.focus, by simp [before], by simp [after]⟩

theorem Valid.search (valid : Valid t cap tree) (price : PriceTick) :
    ∃ result, t.descend price (t.size_ + 1) NIL t.links.root NIL NIL = some result ∧
      Arrived t price tree result := by
  have root : t.links.root = tree.top NIL := valid.focus.outer
  rw [root]
  exact descend_spec _ (valid.descended price) valid.sorted (by rw [valid.count]; omega)

theorem Descended.absent {price : PriceTick} {fs : List (Frame Nat)} (descended : Descended t price fs .nil) :
    ∀ i ∈ (plug fs .nil).inorder, t.key i ≠ price := by
  intro i member
  rw [inorder_plug] at member
  simp only [RBTree.inorder, List.append_nil, List.mem_append] at member
  rcases member with low | high
  · exact Compare.before_ne (descended.lower i low)
  · exact (Compare.before_ne (descended.upper i high)).symm

theorem find_spec (valid : Valid t cap tree) (price : PriceTick) :
    ∃ x, t.find price = some x ∧
      (x ∈ tree.inorder ∧ t.key x = price ∨ x = NIL ∧ ∀ i ∈ tree.inorder, t.key i ≠ price) := by
  obtain ⟨result, search, arrived⟩ := valid.search price
  rw [find, findLoop_eq_descend t price _ NIL _ NIL NIL, search]
  cases arrived with
  | found member same => exact ⟨_, rfl, .inl ⟨member, same⟩⟩
  | missing whole descended => exact ⟨_, rfl, .inr ⟨rfl, whole ▸ descended.absent⟩⟩

def attach (s : Store Nat) (fs : List (Frame Nat)) (z : Nat) : Store Nat :=
  ((((s.setChild .left z NIL).setChild .right z NIL).setParent z (holder NIL fs)).setColor z .red).setHole fs z

theorem attach_held {s : Store Nat} {fs : List (Frame Nat)} {z : Nat} (held : Held s NIL fs .nil)
    (fresh : z ∉ cells fs) (real : z ≠ NIL) : Held (attach s fs z) NIL fs (.join .left .red z .nil .nil) := by
  have distinct : (cells fs).Nodup := by simpa [RBTree.inorder] using held.focus.distinct
  refine ⟨⟨?_, ?_, ?_⟩, ?_, ?_⟩
  · exact ((((held.focus.outer.setChild fresh).setChild fresh).setParent fresh).setColor fresh).setHole distinct
  · refine ⟨real, ?_, ?_, ?_, ?_, trivial, trivial⟩
    · simp [attach]
    · simp [attach]
    · rw [attach, Store.setHole_child _ _ _ fresh]
      simp
    · rw [attach, Store.setHole_child _ _ _ fresh]
      simp
  · simpa [RBTree.join, RBTree.inorder, fresh] using distinct
  · simpa [attach, real.symm] using held.color
  · simpa [attach, real.symm] using held.parent

theorem splice_links {price : PriceTick} {fs : List (Frame Nat)} {z : Nat} (p n : Nat)
    (descended : Descended t price fs .nil) (fresh : z ∉ cells fs) :
    (t.splice price z (holder NIL fs) p n).links = attach t.links fs z := by
  have outer := descended.focus.outer
  cases fs with
  | nil => simp only [splice, holder, if_true]; split <;> split <;> rfl
  | cons f fs =>
    have other : f.cell ≠ z := by rintro rfl; simp [cells] at fresh
    simp only [splice, holder, if_neg outer.1, Function.update_of_ne other]
    cases side : f.dir with
    | left =>
      have less := descended.upper f.cell (by simp [after, side])
      rw [key] at less
      rw [if_pos less]
      split <;> split <;> simp [attach, Store.setHole, side, holder]
    | right =>
      have greater := descended.lower f.cell (by simp [before, side])
      rw [key] at greater
      have notLess : t.before_.before price (t.kv f.cell).1 ≠ true := by
        intro less
        have cycle := Compare.before_trans less greater
        simp [Compare.before_irrefl] at cycle
      rw [if_neg notLess]
      split <;> split <;> simp [attach, Store.setHole, side, holder]

theorem splice_frame (t : RBPriceIndex) (price : PriceTick) (z y p n : Nat) :
    (t.splice price z y p n).kv = Function.update t.kv z (price, (t.kv z).2) ∧
      (t.splice price z y p n).free = t.free ∧ (t.splice price z y p n).size_ = t.size_ ∧
      (t.splice price z y p n).before_ = t.before_ ∧
      (t.splice price z y p n).begin_ = (if p = NIL then z else t.begin_) ∧
      (t.splice price z y p n).succ =
        relink NIL (Function.update t.succ z n) p z ∧
      (t.splice price z y p n).pred =
        relink NIL (Function.update t.pred z p) n z := by
  simp only [splice]
  by_cases root : y = NIL <;> by_cases first : p = NIL <;> by_cases last : n = NIL <;>
    by_cases less : t.before_.before price (Function.update t.kv z (price, (t.kv z).2) y).1 = true <;>
    simp [root, first, last, less, relink]

theorem splice_chain {l₁ l₂ : List Nat} {z : Nat} (price : PriceTick) (y : Nat)
    (chain : Segment t.succ t.pred NIL (l₁ ++ l₂) NIL) (distinct : (l₁ ++ l₂).Nodup)
    (sentinel : NIL ∉ l₁ ++ l₂) (fresh : z ∉ l₁ ++ l₂) (real : z ≠ NIL) (first : t.begin_ = (l₁ ++ l₂).headD NIL) :
    Segment (t.splice price z y (l₁.getLastD NIL) (l₂.headD NIL)).succ
        (t.splice price z y (l₁.getLastD NIL) (l₂.headD NIL)).pred NIL (l₁ ++ z :: l₂) NIL ∧
      (t.splice price z y (l₁.getLastD NIL) (l₂.headD NIL)).begin_ = (l₁ ++ z :: l₂).headD NIL := by
  obtain ⟨_, _, _, _, begins, succs, preds⟩ := t.splice_frame price z y (l₁.getLastD NIL) (l₂.headD NIL)
  constructor
  · rw [succs, preds]
    exact chain.insert_relink distinct sentinel fresh real
  · rw [begins]
    cases l₁ with
    | nil => simp
    | cons i l =>
      have member := getLastD_mem NIL (List.cons_ne_nil i l)
      rw [if_neg (fun same : _ = NIL => sentinel (List.mem_append_left _ (same ▸ member))), first]
      simp

/-- What one call of `tryEmplace` does to a valid index. -/
inductive Emplaced (t : RBPriceIndex) (cap : Nat) (tree : RBTree Nat) (price : PriceTick) :
    RBPriceIndex → Except Exception (Nat × Bool) → Prop
  | present {i : Nat} (member : i ∈ tree.inorder) (same : t.key i = price) : Emplaced t cap tree price t (.ok (i, false))
  | full (absent : ∀ i ∈ tree.inorder, t.key i ≠ price) (exhausted : t.free = []) :
      Emplaced t cap tree price t (.error .badAlloc)
  | fresh {z : Nat} {t' : RBPriceIndex} {tree' : RBTree Nat} {l₁ l₂ : List Nat}
      (absent : ∀ i ∈ tree.inorder, t.key i ≠ price) (popped : t.free = z :: t'.free)
      (valid : Valid t' cap tree') (split : tree.inorder = l₁ ++ l₂) (order : tree'.inorder = l₁ ++ z :: l₂)
      (kv : t'.kv = Function.update t.kv z (price, {})) (cmp : t'.before_ = t.before_) :
      Emplaced t cap tree price t' (.ok (z, true))

def popped (t : RBPriceIndex) (z : Nat) (free : List Nat) : RBPriceIndex :=
  { t with
    free := free
    links := (((t.links.setChild .left z NIL).setChild .right z NIL).setParent z NIL).setColor z .black
    kv := Function.update t.kv z (0, {})
    pred := Function.update t.pred z NIL
    succ := Function.update t.succ z NIL }

theorem alloc_cons {z : Nat} {free : List Nat} (stack : t.free = z :: free) :
    t.alloc = .ok (z, t.popped z free) := by
  rw [alloc, stack]
  rfl

theorem popped_held {fs : List (Frame Nat)} {z : Nat} (free : List Nat) (held : Held t.links NIL fs .nil)
    (fresh : z ∉ cells fs) (real : z ≠ NIL) : Held (t.popped z free).links NIL fs .nil := by
  refine ⟨⟨?_, trivial, held.focus.distinct⟩, ?_, ?_⟩
  · exact (((held.focus.outer.setChild fresh).setChild fresh).setParent fresh).setColor fresh
  · simpa [popped, real.symm] using held.color
  · simpa [popped, real.symm] using held.parent

theorem popped_key {z i : Nat} (free : List Nat) (other : i ≠ z) : (t.popped z free).key i = t.key i := by
  simp [popped, key, Function.update_of_ne other]

section Splice

variable {fs : List (Frame Nat)} {z : Nat} {free : List Nat} {price : PriceTick}

def spliced (t : RBPriceIndex) (price : PriceTick) (fs : List (Frame Nat)) (z : Nat) (free : List Nat) : RBPriceIndex :=
  (t.popped z free).splice price z (holder NIL fs) ((before fs).getLastD NIL) ((after fs).headD NIL)

theorem spliced_held (valid : Valid t cap (plug fs .nil)) (descended : Descended t price fs .nil)
    (stack : t.free = z :: free) :
    Held (t.spliced price fs z free).links NIL fs (.join .left .red z .nil .nil) := by
  have outside := valid.free_not_mem (z := z) (by simp [stack])
  have fresh : z ∉ cells fs := fun member =>
    outside.1 ((inorder_plug_perm fs .nil).mem_iff.mpr (List.mem_append_right _ member))
  have other : ∀ i ∈ cells fs, i ≠ z := by
    rintro i member rfl
    exact fresh member
  have held : Held t.links NIL fs .nil := ⟨descended.focus, valid.sentinelColor, valid.sentinelParent⟩
  have moved := popped_held free held fresh outside.2
  have still : Descended (t.popped z free) price fs .nil := by
    refine ⟨moved.focus, fun i member => ?_, fun i member => ?_⟩
    · rw [popped_key free (other i (before_subset member))]
      exact descended.lower i member
    · rw [popped_key free (other i (after_subset member))]
      exact descended.upper i member
  rw [spliced, splice_links _ _ still fresh]
  exact attach_held moved fresh outside.2

theorem spliced_kv (t : RBPriceIndex) (price : PriceTick) (fs : List (Frame Nat)) (z : Nat) (free : List Nat) :
    (t.spliced price fs z free).kv = Function.update t.kv z (price, {}) := by
  rw [spliced, ((t.popped z free).splice_frame price z _ _ _).1]
  simp [popped]

theorem spliced_sorted (valid : Valid t cap (plug fs .nil)) (descended : Descended t price fs .nil)
    (outside : z ∉ before fs ++ after fs) :
    (before fs ++ z :: after fs).Pairwise fun i j =>
      t.before_.before ((t.spliced price fs z free).key i) ((t.spliced price fs z free).key j) = true := by
  have same : ∀ i ∈ before fs ++ after fs, (t.spliced price fs z free).key i = t.key i := by
    intro i member
    have other : i ≠ z := by rintro rfl; exact outside member
    rw [key, spliced_kv, Function.update_of_ne other, key]
  have here : (t.spliced price fs z free).key z = price := by
    rw [key, spliced_kv, Function.update_self]
  have sorted := valid.sorted
  rw [inorder_plug] at sorted
  simp only [RBTree.inorder, List.append_nil] at sorted
  have moved := sorted.imp_of_mem (S := fun i j =>
    t.before_.before ((t.spliced price fs z free).key i) ((t.spliced price fs z free).key j) = true)
    (fun hi hj ordered => by rwa [same _ hi, same _ hj])
  rw [List.pairwise_append] at moved ⊢
  refine ⟨moved.1, List.pairwise_cons.mpr ⟨?_, moved.2.1⟩, ?_⟩
  · intro j member
    rw [here, same j (List.mem_append_right _ member)]
    exact descended.upper j member
  · intro i low j high
    rcases List.mem_cons.mp high with rfl | high
    · rw [here, same i (List.mem_append_left _ low)]
      exact descended.lower i low
    · exact moved.2.2 i low j high

theorem spliced_valid (valid : Valid t cap (plug fs .nil)) (descended : Descended t price fs .nil)
    (stack : t.free = z :: free) :
    ∃ links tree', insertFixup ((t.spliced price fs z free).size_ + 2) (t.spliced price fs z free).links z = some links ∧
      Valid { t.spliced price fs z free with links := links, size_ := (t.spliced price fs z free).size_ + 1 } cap tree' ∧
      tree'.inorder = before fs ++ z :: after fs := by
  have outside := valid.free_not_mem (z := z) (by simp [stack])
  have order : (plug fs .nil).inorder = before fs ++ after fs := by rw [inorder_plug]; simp [RBTree.inorder]
  rw [order] at outside
  obtain ⟨_, frees, sizes, cmps, _, _, _⟩ := (t.popped z free).splice_frame price z (holder NIL fs)
    ((before fs).getLastD NIL) ((after fs).headD NIL)
  obtain ⟨m, balanced⟩ := valid.balanced
  obtain ⟨c, n, empty, fits⟩ := balanced.unplug
  cases empty
  have count : fs.length ≤ t.size_ := by
    have total := (inorder_plug_perm fs .nil).length_eq
    have long := length_le_cells fs
    rw [RBTree.inorder_length] at total
    rw [valid.count, total]
    simpa [RBTree.inorder] using long
  have enough : fs.length + 2 ≤ (t.spliced price fs z free).size_ + 2 := by
    rw [spliced, sizes]
    exact Nat.add_le_add_right count 2
  obtain ⟨links, tree', m', fixed, held, same, balanced'⟩ :=
    insertFixup_spec (spliced_held valid descended stack) (Balanced.joinRed .nil .nil) fits enough
  have order' : tree'.inorder = before fs ++ z :: after fs := by
    rw [same, inorder_plug]
    simp [RBTree.join, RBTree.inorder]
  have chain := valid.chain
  have nodup := valid.nodup
  have sentinel := valid.sentinel_not_mem
  have first := valid.first
  rw [order] at chain nodup sentinel first
  obtain ⟨threaded, begins⟩ := splice_chain (t := t.popped z free) (z := z) price (holder NIL fs)
    (chain.congr
      (fun i member => Function.update_of_ne (by rintro rfl; exact outside.1 member) _ _)
      (fun i member => Function.update_of_ne (by rintro rfl; exact outside.1 member) _ _))
    nodup sentinel outside.1 outside.2 first
  refine ⟨links, tree', fixed, valid_of_parts held ⟨_, balanced'⟩ ?_ ?_ ?_ ?_ ?_, order'⟩
  · rw [order', show (t.spliced price fs z free).before_ = t.before_ from cmps]
    exact spliced_sorted valid descended outside.1
  · rw [order']
    exact threaded
  · rw [order']
    exact begins
  · have total := congrArg List.length order'
    have former := congrArg List.length order
    have counted := valid.count
    have kept : (t.spliced price fs z free).size_ = t.size_ := sizes
    simp only [RBTree.inorder_length, List.length_append, List.length_cons] at total former
    omega
  · have pool := valid.pool
    rw [stack, order] at pool
    rw [order', show (t.spliced price fs z free).free = free from frees]
    refine List.Perm.trans ?_ pool
    exact (List.perm_middle.append_left free).trans List.perm_middle

end Splice

theorem tryEmplace_spec (valid : Valid t cap tree) (price : PriceTick) :
    ∃ t' result, t.tryEmplace price = some (t', result) ∧ Emplaced t cap tree price t' result := by
  obtain ⟨result, search, arrived⟩ := valid.search price
  simp only [tryEmplace, search, Option.bind_eq_bind, Option.bind_some]
  cases arrived with
  | found member same => exact ⟨t, _, rfl, .present member same⟩
  | @missing fs whole descended =>
    have absent := whole ▸ descended.absent
    cases stack : t.free with
    | nil => exact ⟨t, _, by simp [alloc, stack], .full absent stack⟩
    | cons z free =>
      subst whole
      obtain ⟨links, tree', fixed, valid', order⟩ := spliced_valid valid descended stack
      obtain ⟨_, frees, _, cmps, _, _, _⟩ := (t.popped z free).splice_frame price z (holder NIL fs)
        ((before fs).getLastD NIL) ((after fs).headD NIL)
      simp only [alloc_cons stack]
      rw [spliced] at fixed
      rw [fixed]
      refine ⟨_, _, rfl, .fresh absent ?_ valid' ?_ order (t.spliced_kv price fs z free) cmps⟩
      · rw [stack]
        exact congrArg (z :: ·) frees.symm
      · rw [inorder_plug]
        simp [RBTree.inorder]

theorem unlink_frame (t : RBPriceIndex) (z : Nat) :
    (t.unlink z).links = t.links ∧ (t.unlink z).kv = t.kv ∧ (t.unlink z).free = t.free ∧
      (t.unlink z).size_ = t.size_ ∧ (t.unlink z).before_ = t.before_ ∧
      (t.unlink z).begin_ = (if t.pred z = NIL then t.succ z else t.begin_) ∧
      (t.unlink z).succ = relink NIL t.succ (t.pred z) (t.succ z) := by
  simp only [unlink]
  by_cases first : t.pred z = NIL
  · by_cases last : t.succ z = NIL <;> simp [first, last, relink]
  · simp only [ne_eq, first, not_false_eq_true, if_true]
    split <;> simp [first, relink]

theorem unlink_chain {l₁ l₂ : List Nat} {z : Nat} (chain : Segment t.succ t.pred NIL (l₁ ++ z :: l₂) NIL)
    (distinct : (l₁ ++ z :: l₂).Nodup) (sentinel : NIL ∉ l₁ ++ z :: l₂)
    (first : t.begin_ = (l₁ ++ z :: l₂).headD NIL) :
    Segment (t.unlink z).succ (t.unlink z).pred NIL (l₁ ++ l₂) NIL ∧
      (t.unlink z).begin_ = (l₁ ++ l₂).headD NIL ∧ (t.unlink z).succ z = l₂.headD NIL := by
  obtain ⟨_, _, _, _, _, begins, succs⟩ := t.unlink_frame z
  have back := chain.prev_of_mem
  have forward := chain.next_of_mem
  have apart : z ≠ t.pred z := by
    rw [back]
    apply getLastD_ne NIL
    · rintro rfl
      exact sentinel (by simp)
    · intro last
      have member := List.mem_of_getLast? last
      rw [List.perm_middle.nodup_iff, List.nodup_cons] at distinct
      exact distinct.1 (List.mem_append_left _ member)
  have same : (t.unlink z).succ z = t.succ z := by rw [succs, relink_of_ne apart]
  have preds : (t.unlink z).pred = relink NIL t.pred (t.succ z) (t.pred z) := by
    simp only [unlink]
    by_cases origin : t.pred z = NIL
    · by_cases last : t.succ z = NIL <;> simp [origin, last, relink]
    · by_cases last : t.succ z = NIL <;> simp [origin, last, relink, Function.update_of_ne apart]
  refine ⟨?_, ?_, same.trans forward⟩
  · rw [succs, preds]
    exact chain.remove_relink distinct sentinel
  · rw [begins, back]
    cases l₁ with
    | nil => simp [forward]
    | cons i l =>
      have member := getLastD_mem NIL (List.cons_ne_nil i l)
      rw [if_neg (fun same : _ = NIL => sentinel (List.mem_append_left _ (same ▸ member))), first]
      simp

theorem scrub_focus {s : Store Nat} (focus : Focus s NIL [] tree) (color : Color) (p : Nat) :
    Focus ((s.setParent NIL p).setColor NIL color) NIL [] tree := by
  have outside := focus.inner.sentinel_not_mem
  exact ⟨focus.outer, (focus.inner.setParent outside).setColor outside, focus.distinct⟩

/-- What a call of `erase` with the cell of a present node does to a valid index. -/
structure Erased (t : RBPriceIndex) (cap : Nat) (tree : RBTree Nat) (z : Nat) (t' : RBPriceIndex)
    (tree' : RBTree Nat) (l₁ l₂ : List Nat) : Prop where
  valid : Valid t' cap tree'
  split : tree.inorder = l₁ ++ z :: l₂
  order : tree'.inorder = l₁ ++ l₂
  pushed : t'.free = z :: t.free
  kv : t'.kv = t.kv
  cmp : t'.before_ = t.before_

theorem erase_spec {z : Nat} (valid : Valid t cap tree) (member : z ∈ tree.inorder) :
    ∃ t' tree' l₁ l₂, t.erase z = some t' ∧ Erased t cap tree z t' tree' l₁ l₂ := by
  obtain ⟨fs, c, l, r, rfl⟩ := exists_plug member
  have split : (plug fs (.node c l z r)).inorder = (before fs ++ l.inorder) ++ z :: (r.inorder ++ after fs) := by
    rw [inorder_plug]
    simp [RBTree.inorder]
  have real : z ≠ NIL := by
    rintro rfl
    exact valid.sentinel_not_mem member
  have chain := valid.chain
  have nodup := valid.nodup
  have sentinel := valid.sentinel_not_mem
  have first := valid.first
  have sorted := valid.sorted
  have pool := valid.pool
  rw [split] at chain nodup sentinel first sorted pool
  obtain ⟨linksU, kvU, freeU, sizeU, cmpU, _, _⟩ := t.unlink_frame z
  obtain ⟨chainU, beginU, succU⟩ := unlink_chain chain nodup sentinel first
  obtain ⟨m, balanced⟩ := valid.balanced
  have held : Held t.links NIL fs (.node c l z r) :=
    ⟨valid.focus.of_whole, valid.sentinelColor, valid.sentinelParent⟩
  have next : l ≠ .nil → r ≠ .nil → r.inorder.head? = some ((t.unlink z).succ z) := by
    intro _ nonempty
    rw [succU]
    cases form : r.inorder with
    | nil => exact absurd (by simpa [form] using RBTree.inorder_length r) (by cases r <;> simp_all [RBTree.size])
    | cons i rest => simp
  have enough : (plug fs (.node c l z r)).size + 1 ≤ (t.unlink z).size_ + 2 := by
    rw [sizeU, valid.count]
    omega
  obtain ⟨s', x, lost, s'', tree', m', grafted, fixed, focus, color, balanced', order⟩ :=
    removal_spec held balanced next enough
  have order' : tree'.inorder = (before fs ++ l.inorder) ++ (r.inorder ++ after fs) := by
    rw [order]
    simp
  have scrubbed : Held ((s''.setParent NIL NIL).setColor NIL .black) NIL [] tree' :=
    ⟨scrub_focus focus .black NIL, by simp, by simp⟩
  refine ⟨{ t.unlink z with
    links := (s''.setParent NIL NIL).setColor NIL .black
    free := z :: (t.unlink z).free
    size_ := (t.unlink z).size_ - 1 }, tree', _, _, ?_, ?_, split, order', ?_, kvU, cmpU⟩
  · simp only [erase, if_neg real, linksU, grafted, release, Option.bind_eq_bind, Option.bind_some]
    cases lost with
    | red =>
      simp only [reduceCtorEq, if_false, Option.some.injEq] at fixed
      simp [fixed]
    | black =>
      simp only [if_true] at fixed
      simp [fixed]
  · refine valid_of_parts scrubbed ⟨m', balanced'⟩ ?_ ?_ ?_ ?_ ?_
    · rw [order', cmpU]
      simp only [key, kvU]
      exact sorted.sublist (by simp)
    · rw [order']
      exact chainU
    · rw [order']
      exact beginU
    · have total := congrArg List.length order'
      have former := congrArg List.length split
      have counted := valid.count
      simp only [RBTree.inorder_length, List.length_append, List.length_cons] at total former
      omega
    · rw [order', freeU]
      refine List.Perm.trans ?_ pool
      exact List.perm_middle.symm.trans (List.perm_middle.symm.append_left t.free)
  · rw [freeU]

end RBPriceIndex

end Titan
