import Titan.Book.RBRuns

namespace Titan

open RedBlack Linked

namespace RBPriceIndex

/-- The walk along `succ`. An inner `none` is a check that failed. -/
def chainLoop (t : RBPriceIndex) : Nat → Nat → Nat → Nat → Option (Option Nat)
  | 0, _, _, _ => none
  | fuel + 1, count, i, prev =>
    if i = NIL then some (some count)
    else if t.pred i ≠ prev then some none
    else if prev ≠ NIL ∧ t.before_.before (t.kv prev).1 (t.kv i).1 = false then some none
    else t.chainLoop fuel (count + 1) (t.succ i) i

/-- The black height of a subtree, or -1 when a check fails in it. -/
def checkNode (t : RBPriceIndex) : Nat → Nat → Option Int
  | 0, _ => none
  | fuel + 1, x =>
    if x = NIL then some 1
    else
      let l := t.links.child .left x
      let r := t.links.child .right x
      if t.links.color x = .red ∧ (t.links.color l ≠ .black ∨ t.links.color r ≠ .black) then some (-1)
      else if l ≠ NIL ∧ t.links.parent l ≠ x then some (-1)
      else if l ≠ NIL ∧ t.before_.before (t.kv l).1 (t.kv x).1 = false then some (-1)
      else if r ≠ NIL ∧ t.links.parent r ≠ x then some (-1)
      else if r ≠ NIL ∧ t.before_.before (t.kv x).1 (t.kv r).1 = false then some (-1)
      else do
        let lh ← t.checkNode fuel l
        let rh ← t.checkNode fuel r
        if lh < 0 ∨ rh < 0 ∨ lh ≠ rh then some (-1)
        else some (lh + if t.links.color x = .black then 1 else 0)

/-- `none` when one of the two walks has not ended within the fuel. -/
def validate (t : RBPriceIndex) (fuel : Nat) : Option Bool :=
  if t.links.root = NIL then some (decide (t.size_ = 0) && decide (t.begin_ = NIL))
  else if t.links.color t.links.root ≠ .black then some false
  else do
    match ← t.chainLoop fuel 0 t.begin_ NIL with
    | none => some false
    | some count =>
      if count ≠ t.size_ then some false
      else
        let height ← t.checkNode fuel t.links.root
        some (decide (height ≥ 0))

def inorderFrom (t : RBPriceIndex) : Nat → Nat → Option (List Nat)
  | 0, _ => none
  | fuel + 1, x =>
    if x = NIL then some []
    else do
      let l ← t.inorderFrom fuel (t.links.child .left x)
      let r ← t.inorderFrom fuel (t.links.child .right x)
      some (l ++ x :: r)

/-- Symmetric order and the neighbour list are one list, its keys ascend, and `find` succeeds
    exactly for the keys of that list. -/
def Consistent (t : RBPriceIndex) : Prop :=
  ∃ cells, (∃ fuel, t.inorderFrom fuel t.links.root = some cells) ∧ Walk t.succ NIL t.begin_ cells ∧
    (cells.Pairwise fun i j => t.before_.before (t.key i) (t.key j) = true) ∧ cells.length = t.size_ ∧
    ∀ price, ∃ fuel x, t.findLoop price fuel t.links.root = some x ∧ (x ≠ NIL ↔ ∃ i ∈ cells, t.key i = price)

inductive Below (t : RBPriceIndex) : Nat → Nat → Prop
  | here {x : Nat} (real : x ≠ NIL) : Below t x x
  | down {x y : Nat} (d : Dir) (real : x ≠ NIL) (rest : Below t (t.links.child d x) y) : Below t x y

/-- Below `top`, a key lies on the right side of every ancestor, not only of its parent. -/
def Sided (t : RBPriceIndex) (top : Nat) : Prop :=
  ∀ x y, Below t top x →
    (Below t (t.links.child .left x) y → t.before_.before (t.key y) (t.key x) = true) ∧
    (Below t (t.links.child .right x) y → t.before_.before (t.key x) (t.key y) = true)

/-- What `validate` leaves unchecked: the order beyond parent and child, and that the cells of
    the tree are the cells of the neighbour list. -/
structure Global (t : RBPriceIndex) : Prop where
  sided : t.Sided t.links.root
  same : ∀ x, Below t t.links.root x ↔ ∃ chain, Walk t.succ NIL t.begin_ chain ∧ x ∈ chain

variable {t : RBPriceIndex} {tree : RBTree Nat} {fuel x y p : Nat}

theorem chainLoop_spec {count n prev : Nat} (passed : t.chainLoop fuel count x prev = some (some n)) :
    ∃ chain, Walk t.succ NIL x chain ∧ n = count + chain.length ∧
      (prev ≠ NIL → ∀ i ∈ chain, t.before_.before (t.key prev) (t.key i) = true) ∧
      chain.Pairwise fun i j => t.before_.before (t.key i) (t.key j) = true := by
  induction fuel generalizing count x prev with
  | zero => cases passed
  | succ fuel ih =>
    rw [chainLoop] at passed
    split at passed
    · rename_i ended
      cases passed
      refine ⟨[], ended, rfl, ?_, List.Pairwise.nil⟩
      intro _ i member
      cases member
    · rename_i real
      split at passed
      · cases passed
      · split at passed
        · cases passed
        · rename_i ordered
          rcases ih passed with ⟨chain, walk, total, above, sorted⟩
          refine ⟨x :: chain, ⟨rfl, real, walk⟩, ?_, ?_, List.pairwise_cons.mpr ⟨above real, sorted⟩⟩
          · rw [total, List.length_cons]
            omega
          · intro known i member
            have step : t.before_.before (t.key prev) (t.key x) = true := by
              rw [← Bool.not_eq_false]
              exact fun slip => ordered ⟨known, slip⟩
            rcases List.mem_cons.mp member with rfl | member
            · exact step
            · exact Compare.before_trans step (above real i member)

theorem checkNode_cell {height : Int} (passed : t.checkNode (fuel + 1) x = some height) (sound : 0 ≤ height)
    (real : x ≠ NIL) :
    (∀ d, t.links.child d x ≠ NIL → t.links.parent (t.links.child d x) = x) ∧
      ∀ d, ∃ below, t.checkNode fuel (t.links.child d x) = some below ∧ 0 ≤ below := by
  simp only [checkNode, if_neg real] at passed
  have failed : some (-1 : Int) ≠ some height := by
    intro same
    cases same
    exact absurd sound (by decide)
  split at passed
  · exact absurd passed failed
  split at passed
  · exact absurd passed failed
  split at passed
  · exact absurd passed failed
  split at passed
  · exact absurd passed failed
  split at passed
  · exact absurd passed failed
  rename_i leftParent _ rightParent _
  rcases Option.bind_eq_some_iff.mp passed with ⟨lh, left, passed⟩
  rcases Option.bind_eq_some_iff.mp passed with ⟨rh, right, passed⟩
  split at passed
  · exact absurd passed failed
  rename_i heights
  simp only [not_or, not_lt] at heights
  constructor
  · intro d child
    cases d with
    | left => exact Classical.not_not.mp fun slip => leftParent ⟨child, slip⟩
    | right => exact Classical.not_not.mp fun slip => rightParent ⟨child, slip⟩
  · intro d
    cases d with
    | left => exact ⟨lh, left, heights.1⟩
    | right => exact ⟨rh, right, heights.2.1⟩

theorem checkNode_spec {height : Int} (passed : t.checkNode fuel x = some height) (sound : 0 ≤ height) :
    ∃ tree : RBTree Nat, tree.top NIL = x ∧ Represents t.links NIL (t.links.parent x) tree ∧
      t.inorderFrom fuel x = some tree.inorder := by
  induction fuel generalizing x height with
  | zero => cases passed
  | succ fuel ih =>
    rw [inorderFrom]
    by_cases real : x = NIL
    · rw [if_pos real]
      exact ⟨.nil, real.symm, trivial, rfl⟩
    · rw [if_neg real]
      rcases checkNode_cell passed sound real with ⟨parents, checked⟩
      rcases checked .left with ⟨lh, left, leftSound⟩
      rcases checked .right with ⟨rh, right, rightSound⟩
      rcases ih left leftSound with ⟨l, topL, heldL, visitL⟩
      rcases ih right rightSound with ⟨r, topR, heldR, visitR⟩
      have hung : ∀ {d : Dir} {sub : RBTree Nat}, sub.top NIL = t.links.child d x →
          Represents t.links NIL (t.links.parent (t.links.child d x)) sub → Represents t.links NIL x sub := by
        intro d sub top held
        cases sub with
        | nil => trivial
        | node c a i b =>
          have child : t.links.child d x ≠ NIL := top ▸ held.1
          rwa [parents d child] at held
      refine ⟨.node (t.links.color x) l x r, rfl, ?_, ?_⟩
      · exact ⟨real, rfl, rfl, topL.symm, topR.symm, hung topL heldL, hung topR heldR⟩
      · rw [visitL, visitR]
        rfl

/-- A state that `validate` accepts holds some tree and some ascending list. -/
theorem validate_spec (accepted : t.validate fuel = some true) :
    ∃ (tree : RBTree Nat) (chain : List Nat), tree.top NIL = t.links.root ∧
      Represents t.links NIL (t.links.parent t.links.root) tree ∧
      (∃ fuel, t.inorderFrom fuel t.links.root = some tree.inorder) ∧ Walk t.succ NIL t.begin_ chain ∧
      (chain.Pairwise fun i j => t.before_.before (t.key i) (t.key j) = true) ∧ chain.length = t.size_ := by
  rw [validate] at accepted
  split at accepted
  · rename_i bare
    simp only [Option.some.injEq, Bool.and_eq_true, decide_eq_true_eq] at accepted
    exact ⟨.nil, [], bare.symm, trivial, ⟨1, by rw [inorderFrom, if_pos bare]; rfl⟩, accepted.2, List.Pairwise.nil, accepted.1.symm⟩
  · split at accepted
    · cases accepted
    rcases Option.bind_eq_some_iff.mp accepted with ⟨walked, walk, accepted⟩
    cases walked with
    | none => cases accepted
    | some count =>
      simp only at accepted
      split at accepted
      · cases accepted
      rename_i equal
      rcases Option.bind_eq_some_iff.mp accepted with ⟨height, checked, accepted⟩
      have sound : 0 ≤ height := by simpa using accepted
      rcases checkNode_spec checked sound with ⟨tree, top, held, visit⟩
      rcases chainLoop_spec walk with ⟨chain, path, total, -, sorted⟩
      refine ⟨tree, chain, top, held, ⟨fuel, visit⟩, path, sorted, ?_⟩
      rw [Nat.zero_add] at total
      rw [← total]
      exact Classical.not_not.mp equal

theorem inorderFrom_unique {cells : List Nat} (held : Represents t.links NIL p tree)
    (visit : t.inorderFrom fuel (tree.top NIL) = some cells) : cells = tree.inorder := by
  induction tree generalizing p fuel cells with
  | nil =>
    cases fuel with
    | zero => cases visit
    | succ fuel =>
      rw [inorderFrom, if_pos RBTree.top_nil] at visit
      cases visit
      rfl
  | node c l i r ihl ihr =>
    rcases held with ⟨real, -, -, left, right, heldL, heldR⟩
    cases fuel with
    | zero => cases visit
    | succ fuel =>
      rw [inorderFrom, RBTree.top_node, if_neg real, left, right] at visit
      rcases Option.bind_eq_some_iff.mp visit with ⟨before, visitL, visit⟩
      rcases Option.bind_eq_some_iff.mp visit with ⟨after, visitR, visit⟩
      cases visit
      rw [ihl heldL visitL, ihr heldR visitR, RBTree.inorder]

theorem below_iff (held : Represents t.links NIL p tree) : Below t (tree.top NIL) y ↔ y ∈ tree.inorder := by
  induction tree generalizing p with
  | nil =>
    constructor
    · intro below
      cases below with
      | here real => exact absurd rfl real
      | down _ real _ => exact absurd rfl real
    · intro member
      cases member
  | node c l i r ihl ihr =>
    rcases held with ⟨real, -, -, left, right, heldL, heldR⟩
    rw [RBTree.inorder, List.mem_append, List.mem_cons, ← ihl heldL, ← ihr heldR]
    constructor
    · intro below
      cases below with
      | here _ => exact .inr (.inl rfl)
      | down d _ rest =>
        cases d with
        | left => exact .inl (left ▸ rest)
        | right => exact .inr (.inr (right ▸ rest))
    · rintro (below | rfl | below)
      · exact .down .left real (left.symm ▸ below)
      · exact .here real
      · exact .down .right real (right.symm ▸ below)

theorem sided_node {c : Color} {l r : RBTree Nat} (held : Represents t.links NIL p (.node c l x r)) :
    t.Sided x ↔ t.Sided (l.top NIL) ∧ t.Sided (r.top NIL) ∧
      (∀ i ∈ l.inorder, t.before_.before (t.key i) (t.key x) = true) ∧
      ∀ i ∈ r.inorder, t.before_.before (t.key x) (t.key i) = true := by
  rcases held with ⟨real, -, -, left, right, heldL, heldR⟩
  constructor
  · intro sided
    refine ⟨?_, ?_, ?_, ?_⟩
    · intro i j below
      exact sided i j (.down .left real (left.symm ▸ below))
    · intro i j below
      exact sided i j (.down .right real (right.symm ▸ below))
    · intro i member
      exact (sided x i (.here real)).1 (left.symm ▸ (below_iff heldL).mpr member)
    · intro i member
      exact (sided x i (.here real)).2 (right.symm ▸ (below_iff heldR).mpr member)
  · rintro ⟨sidedL, sidedR, before, after⟩ i j below
    cases below with
    | here _ =>
      rw [left, right, below_iff heldL, below_iff heldR]
      exact ⟨before j, after j⟩
    | down d _ rest =>
      cases d with
      | left => exact sidedL i j (left ▸ rest)
      | right => exact sidedR i j (right ▸ rest)

theorem sided_iff_sorted (held : Represents t.links NIL p tree) :
    t.Sided (tree.top NIL) ↔ tree.inorder.Pairwise fun i j => t.before_.before (t.key i) (t.key j) = true := by
  induction tree generalizing p with
  | nil =>
    refine ⟨fun _ => List.Pairwise.nil, ?_⟩
    intro _ i j below
    cases (below_iff held).mp below
  | node c l x r ihl ihr =>
    rw [RBTree.top_node, sided_node held, RBTree.inorder, List.pairwise_append, List.pairwise_cons]
    rcases held with ⟨-, -, -, -, -, heldL, heldR⟩
    rw [ihl heldL, ihr heldR]
    constructor
    · rintro ⟨sortedL, sortedR, before, after⟩
      refine ⟨sortedL, ⟨after, sortedR⟩, ?_⟩
      intro i low j high
      rcases List.mem_cons.mp high with rfl | high
      · exact before i low
      · exact Compare.before_trans (before i low) (after j high)
    · rintro ⟨sortedL, ⟨after, sortedR⟩, across⟩
      exact ⟨sortedL, sortedR, fun i low => across i low x List.mem_cons_self, after⟩

theorem findLoop_spec (held : Represents t.links NIL p tree)
    (sorted : tree.inorder.Pairwise fun i j => t.before_.before (t.key i) (t.key j) = true) (price : PriceTick) :
    ∃ fuel x, t.findLoop price fuel (tree.top NIL) = some x ∧ (x ≠ NIL ↔ ∃ i ∈ tree.inorder, t.key i = price) := by
  induction tree generalizing p with
  | nil =>
    refine ⟨1, NIL, rfl, fun real => absurd rfl real, ?_⟩
    rintro ⟨i, member, -⟩
    cases member
  | node c l x r ihl ihr =>
    rcases held with ⟨real, -, -, left, right, heldL, heldR⟩
    rw [RBTree.inorder, List.pairwise_append, List.pairwise_cons] at sorted
    rcases sorted with ⟨sortedL, ⟨after, sortedR⟩, across⟩
    by_cases equal : price = t.key x
    · refine ⟨1, x, ?_, fun _ => ⟨x, by simp [RBTree.inorder], equal.symm⟩, fun _ => real⟩
      rw [findLoop, RBTree.top_node, if_neg real, if_pos (show price = (t.kv x).1 from equal)]
    · -- the other subtree holds only keys on the far side of `x`
      by_cases less : t.before_.before price (t.key x) = true
      · rcases ihl heldL sortedL with ⟨fuel, y, found, hit⟩
        refine ⟨fuel + 1, y, ?_, ?_⟩
        · rw [findLoop, RBTree.top_node, if_neg real, if_neg (show price ≠ (t.kv x).1 from equal),
            if_pos (show t.before_.before price (t.kv x).1 = true from less), left, found]
        · have far : ∀ i ∈ r.inorder, t.key i ≠ price := by
            intro i member same
            have cycle := Compare.before_trans less (after i member)
            rw [same, Compare.before_irrefl] at cycle
            cases cycle
          rw [hit]
          constructor
          · rintro ⟨i, member, same⟩
            exact ⟨i, List.mem_append_left _ member, same⟩
          · rintro ⟨i, member, same⟩
            rcases List.mem_append.mp member with member | member
            · exact ⟨i, member, same⟩
            · rcases List.mem_cons.mp member with rfl | member
              · exact absurd same.symm equal
              · exact absurd same (far i member)
      · have greater := (Compare.before_total equal).resolve_left less
        rcases ihr heldR sortedR with ⟨fuel, y, found, hit⟩
        refine ⟨fuel + 1, y, ?_, ?_⟩
        · rw [findLoop, RBTree.top_node, if_neg real, if_neg (show price ≠ (t.kv x).1 from equal),
            if_neg (show ¬t.before_.before price (t.kv x).1 = true from less), right, found]
        · have far : ∀ i ∈ l.inorder, t.key i ≠ price := by
            intro i member same
            have cycle := Compare.before_trans (across i member x List.mem_cons_self) greater
            rw [same, Compare.before_irrefl] at cycle
            cases cycle
          rw [hit]
          constructor
          · rintro ⟨i, member, same⟩
            exact ⟨i, List.mem_append_right _ (List.mem_cons_of_mem _ member), same⟩
          · rintro ⟨i, member, same⟩
            rcases List.mem_append.mp member with member | member
            · exact absurd same (far i member)
            · rcases List.mem_cons.mp member with rfl | member
              · exact absurd same.symm equal
              · exact ⟨i, member, same⟩

theorem sorted_nodup {cells : List Nat}
    (sorted : cells.Pairwise fun i j => t.before_.before (t.key i) (t.key j) = true) : cells.Nodup := by
  apply sorted.imp
  intro i j ordered same
  exact Compare.before_ne ordered (congrArg t.key same)

theorem consistent_of_global (accepted : t.validate fuel = some true) (whole : t.Global) : t.Consistent := by
  rcases validate_spec accepted with ⟨tree, chain, top, held, visit, walk, ascending, count⟩
  have sorted := (sided_iff_sorted held).mp (top ▸ whole.sided)
  have member : ∀ i, i ∈ tree.inorder ↔ i ∈ chain := by
    intro i
    rw [← below_iff held, top, whole.same]
    constructor
    · rintro ⟨other, path, inside⟩
      exact walk.unique path ▸ inside
    · intro inside
      exact ⟨chain, walk, inside⟩
  have perm : tree.inorder.Perm chain :=
    (List.perm_ext_iff_of_nodup (sorted_nodup sorted) (sorted_nodup ascending)).mpr member
  have equal : tree.inorder = chain := by
    apply perm.eq_of_pairwise _ sorted ascending
    intro i j _ _ low high
    have cycle := Compare.before_trans low high
    rw [Compare.before_irrefl] at cycle
    cases cycle
  refine ⟨chain, equal ▸ visit, walk, ascending, count, ?_⟩
  intro price
  rw [← equal, ← top]
  exact findLoop_spec held sorted price

theorem global_of_consistent (accepted : t.validate fuel = some true) (consistent : t.Consistent) : t.Global := by
  rcases validate_spec accepted with ⟨tree, chain, top, held, -, walk, -, -⟩
  rcases consistent with ⟨cells, ⟨_, visit⟩, path, sorted, -, -⟩
  have listed : cells = tree.inorder := inorderFrom_unique held (top.symm ▸ visit)
  have equal : tree.inorder = chain := listed ▸ path.unique walk
  constructor
  · rw [← top]
    exact (sided_iff_sorted held).mpr (listed ▸ sorted)
  · intro x
    rw [← top, below_iff held, equal]
    constructor
    · intro inside
      exact ⟨chain, walk, inside⟩
    · rintro ⟨other, path, inside⟩
      exact walk.unique path ▸ inside

theorem checkNode_passes {c : Color} {l r : RBTree Nat} {height : Int} (held : Represents t.links NIL p (.node c l x r))
    (sorted : (RBTree.node c l x r).inorder.Pairwise fun i j => t.before_.before (t.key i) (t.key j) = true)
    (colors : c = .red → t.links.color (l.top NIL) = .black ∧ t.links.color (r.top NIL) = .black)
    (left : t.checkNode fuel (l.top NIL) = some height) (right : t.checkNode fuel (r.top NIL) = some height)
    (sound : 0 ≤ height) : t.checkNode (fuel + 1) x = some (height + if c = .black then 1 else 0) := by
  rcases held with ⟨real, color, -, childL, childR, heldL, heldR⟩
  rw [RBTree.inorder, List.pairwise_append, List.pairwise_cons] at sorted
  rcases sorted with ⟨-, ⟨after, -⟩, across⟩
  have nonempty : ∀ {sub : RBTree Nat}, sub.top NIL ≠ NIL → sub ≠ .nil := by
    rintro sub inside rfl
    exact inside rfl
  have red : ¬(t.links.color x = .red ∧ (t.links.color (l.top NIL) ≠ .black ∨ t.links.color (r.top NIL) ≠ .black)) := by
    rintro ⟨red, slip⟩
    rcases colors (color ▸ red) with ⟨blackL, blackR⟩
    exact slip.elim (absurd blackL) (absurd blackR)
  have parentL : ¬(l.top NIL ≠ NIL ∧ t.links.parent (l.top NIL) ≠ x) := fun slip =>
    slip.2 (heldL.parent_top (nonempty slip.1))
  have parentR : ¬(r.top NIL ≠ NIL ∧ t.links.parent (r.top NIL) ≠ x) := fun slip =>
    slip.2 (heldR.parent_top (nonempty slip.1))
  have orderL : ¬(l.top NIL ≠ NIL ∧ t.before_.before (t.kv (l.top NIL)).1 (t.kv x).1 = false) := fun slip =>
    absurd (across _ (RBTree.top_mem (nonempty slip.1)) x List.mem_cons_self) (by rw [key, key, slip.2]; decide)
  have orderR : ¬(r.top NIL ≠ NIL ∧ t.before_.before (t.kv x).1 (t.kv (r.top NIL)).1 = false) := fun slip =>
    absurd (after _ (RBTree.top_mem (nonempty slip.1))) (by rw [key, key, slip.2]; decide)
  have heights : ¬(height < 0 ∨ height < 0 ∨ height ≠ height) := by omega
  simp only [checkNode, if_neg real, childL, childR]
  rw [if_neg red, if_neg parentL, if_neg orderL, if_neg parentR, if_neg orderR, left, right]
  simp only [Option.bind_eq_bind, Option.bind_some, if_neg heights, color]

theorem checkNode_complete {c : Color} {n : Nat} (balanced : Balanced tree c n) (held : Represents t.links NIL p tree)
    (sentinel : t.links.color NIL = .black)
    (sorted : tree.inorder.Pairwise fun i j => t.before_.before (t.key i) (t.key j) = true) (enough : tree.size < fuel) :
    t.checkNode fuel (tree.top NIL) = some (n + 1 : Int) := by
  induction balanced generalizing p fuel with
  | nil =>
    cases fuel with
    | zero => cases enough
    | succ fuel => rfl
  | @red l r i n balancedL balancedR ihl ihr =>
    cases fuel with
    | zero => cases enough
    | succ fuel =>
      have whole := held
      rcases held with ⟨-, -, -, -, -, heldL, heldR⟩
      have parts := sorted
      rw [RBTree.inorder, List.pairwise_append, List.pairwise_cons] at parts
      rw [RBTree.size] at enough
      have left := ihl heldL parts.1 (show l.size < fuel by omega)
      have right := ihr heldR parts.2.1.2 (show r.size < fuel by omega)
      have blackL := (heldL.color_top sentinel).trans balancedL.color_eq
      have blackR := (heldR.color_top sentinel).trans balancedR.color_eq
      have passes := checkNode_passes whole sorted (fun _ => ⟨blackL, blackR⟩) left right (by omega)
      rw [RBTree.top_node, passes]
      rfl
  | @black l r i c₁ c₂ n balancedL balancedR ihl ihr =>
    cases fuel with
    | zero => cases enough
    | succ fuel =>
      have whole := held
      rcases held with ⟨-, -, -, -, -, heldL, heldR⟩
      have parts := sorted
      rw [RBTree.inorder, List.pairwise_append, List.pairwise_cons] at parts
      rw [RBTree.size] at enough
      have left := ihl heldL parts.1 (show l.size < fuel by omega)
      have right := ihr heldR parts.2.1.2 (show r.size < fuel by omega)
      have passes := checkNode_passes whole sorted (fun red => by cases red) left right (by omega)
      rw [RBTree.top_node, passes]
      rfl

theorem chainLoop_complete {chain : List Nat} {count prev : Nat} (linked : Segment t.succ t.pred prev chain NIL)
    (real : NIL ∉ chain)
    (sorted : chain.Pairwise fun i j => t.before_.before (t.key i) (t.key j) = true)
    (above : prev ≠ NIL → ∀ i ∈ chain, t.before_.before (t.key prev) (t.key i) = true) (enough : chain.length < fuel) :
    t.chainLoop fuel count (chain.headD NIL) prev = some (some (count + chain.length)) := by
  induction chain generalizing fuel count prev with
  | nil =>
    cases fuel with
    | zero => cases enough
    | succ fuel => rfl
  | cons i rest ih =>
    cases fuel with
    | zero => cases enough
    | succ fuel =>
      rcases linked with ⟨back, next, linked⟩
      rw [List.mem_cons, not_or] at real
      rw [List.pairwise_cons] at sorted
      have ordered : ¬(prev ≠ NIL ∧ t.before_.before (t.kv prev).1 (t.kv i).1 = false) := by
        rintro ⟨known, slip⟩
        have step := above known i List.mem_cons_self
        rw [key, key, slip] at step
        cases step
      rw [List.headD_cons, chainLoop, if_neg (Ne.symm real.1), if_neg (not_not_intro back), if_neg ordered, next,
        ih linked real.2 sorted.2 (fun _ => sorted.1) (Nat.lt_of_succ_lt_succ enough), List.length_cons]
      congr 2
      omega

theorem Valid.accepted {cap : Nat} (valid : Valid t cap tree) : t.validate (tree.size + 1) = some true := by
  have root : t.links.root = tree.top NIL := valid.focus.outer
  have held := valid.focus.inner
  rcases valid.balanced with ⟨n, balanced⟩
  have walked : t.chainLoop (tree.size + 1) 0 (tree.inorder.headD NIL) NIL = some (some (0 + tree.inorder.length)) := by
    apply chainLoop_complete valid.chain valid.sentinel_not_mem valid.sorted (fun known => absurd rfl known)
    rw [RBTree.inorder_length]
    exact Nat.lt_succ_self _
  have checked := checkNode_complete balanced held valid.sentinelColor valid.sorted (Nat.lt_succ_self _)
  rw [← valid.first, Nat.zero_add, RBTree.inorder_length, ← valid.count] at walked
  rw [← valid.count, ← root] at checked
  rw [validate, ← valid.count]
  split
  · rename_i bare
    rw [root] at bare
    cases tree with
    | nil =>
      have first := valid.first
      have count := valid.count
      rw [first, count]
      rfl
    | node c l i r => exact absurd bare held.1
  · have black : t.links.color t.links.root = .black := by
      rw [root, held.color_top valid.sentinelColor, balanced.color_eq]
    rw [if_neg (not_not_intro black), walked]
    simp only [Option.bind_eq_bind, Option.bind_some]
    rw [if_neg (not_not_intro rfl), checked, Option.bind_some, Option.some.injEq, decide_eq_true_eq]
    omega

theorem Valid.unchecked {cap : Nat} (valid : Valid t cap tree) : t.Global := by
  have root : t.links.root = tree.top NIL := valid.focus.outer
  have walk := valid.chain.walk valid.sentinel_not_mem
  rw [← valid.first] at walk
  constructor
  · rw [root]
    exact (sided_iff_sorted valid.focus.inner).mpr valid.sorted
  · intro x
    rw [root, below_iff valid.focus.inner]
    constructor
    · intro inside
      exact ⟨_, walk, inside⟩
    · rintro ⟨other, path, inside⟩
      exact walk.unique path ▸ inside

/-- In an accepted state lookups agree with the neighbour list exactly when what `validate` leaves
    unchecked holds as well. -/
theorem validate_sound_iff (accepted : ∃ fuel, t.validate fuel = some true) : t.Consistent ↔ t.Global := by
  rcases accepted with ⟨fuel, accepted⟩
  exact ⟨global_of_consistent accepted, consistent_of_global accepted⟩

theorem validate_sound_iff_of_three : ∃ t : RBPriceIndex, t.size_ = 3 ∧ t.validate 4 = some true ∧ t.Consistent := by
  rcases Run.fill .less 8 3 (by decide) with ⟨t, m, run, count, -⟩
  rcases run.valid with ⟨tree, valid, -, -⟩
  have accepted := valid.accepted
  rw [← valid.count, count] at accepted
  exact ⟨t, count, accepted, (validate_sound_iff ⟨4, accepted⟩).mpr valid.unchecked⟩

/-- Seven black cells, all keys beside their parent, with 20 below the left child of 10. -/
def misplaced : RBPriceIndex where
  links := {
    child := fun d i =>
      match i, d with
      | 1, .left => 2
      | 1, .right => 3
      | 2, .left => 4
      | 2, .right => 5
      | 3, .left => 6
      | 3, .right => 7
      | _, _ => NIL
    parent := fun i => if i = 2 ∨ i = 3 then 1 else if i = 4 ∨ i = 5 then 2 else if i = 6 ∨ i = 7 then 3 else NIL
    color := fun _ => .black
    root := 1 }
  kv := fun i =>
    match i with
    | 1 => (10, {})
    | 2 => (5, {})
    | 3 => (15, {})
    | 4 => (3, {})
    | 5 => (20, {})
    | 6 => (12, {})
    | 7 => (17, {})
    | _ => (0, {})
  pred := fun i =>
    match i with
    | 2 => 4
    | 1 => 2
    | 6 => 1
    | 3 => 6
    | 7 => 3
    | 5 => 7
    | _ => NIL
  succ := fun i =>
    match i with
    | 4 => 2
    | 2 => 1
    | 1 => 6
    | 6 => 3
    | 3 => 7
    | 7 => 5
    | _ => NIL
  free := []
  begin_ := 4
  size_ := 7
  before_ := .less

/-- `validate` accepts it, the neighbour list ends in 20, and `find(20)` is `end()`. -/
theorem validate_accepts_misplaced :
    misplaced.validate 9 = some true ∧ Walk misplaced.succ NIL misplaced.begin_ [4, 2, 1, 6, 3, 7, 5] ∧
      misplaced.key 5 = 20 ∧ misplaced.findLoop 20 9 misplaced.links.root = some NIL ∧ ¬misplaced.Consistent := by
  have accepted : misplaced.validate 9 = some true := by decide
  have walk : Walk misplaced.succ NIL misplaced.begin_ [4, 2, 1, 6, 3, 7, 5] := by simp [Walk, misplaced, NIL]
  refine ⟨accepted, walk, rfl, by decide, ?_⟩
  intro consistent
  have whole := global_of_consistent accepted consistent
  have under : Below misplaced (misplaced.links.child .left 1) 5 := .down .right (by decide) (.here (by decide))
  have ordered := (whole.sided 1 5 (.here (by decide))).1 under
  exact absurd ordered (by decide)

end RBPriceIndex

end Titan
