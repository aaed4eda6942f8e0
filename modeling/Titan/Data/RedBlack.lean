import Mathlib.Data.List.Nodup
import Mathlib.Data.Nat.Log
import Mathlib.Algebra.Ring.Nat

namespace RedBlack

inductive Dir
  | left
  | right
  deriving DecidableEq, Repr

def Dir.opp : Dir → Dir
  | .left => .right
  | .right => .left

@[simp] theorem Dir.opp_opp (d : Dir) : d.opp.opp = d := by cases d <;> rfl

@[simp] theorem Dir.opp_ne (d : Dir) : d.opp ≠ d := by cases d <;> decide

@[simp] theorem Dir.ne_opp (d : Dir) : d ≠ d.opp := by cases d <;> decide

theorem Dir.eq_or_opp (d e : Dir) : e = d ∨ e = d.opp := by cases d <;> cases e <;> simp [Dir.opp]

inductive Color
  | red
  | black
  deriving DecidableEq, Repr

inductive RBTree (ι : Type)
  | nil
  | node (color : Color) (left : RBTree ι) (cell : ι) (right : RBTree ι)
  deriving DecidableEq, Repr

variable {ι : Type}

namespace RBTree

/-- A node whose child on side `d` is `near` and whose other child is `far`. -/
def join (d : Dir) (c : Color) (i : ι) (near far : RBTree ι) : RBTree ι :=
  match d with
  | .left => .node c near i far
  | .right => .node c far i near

def inorder : RBTree ι → List ι
  | nil => []
  | node _ l i r => l.inorder ++ i :: r.inorder

def size : RBTree ι → Nat
  | nil => 0
  | node _ l _ r => l.size + r.size + 1

def height : RBTree ι → Nat
  | nil => 0
  | node _ l _ r => max l.height r.height + 1

def color : RBTree ι → Color
  | nil => .black
  | node c _ _ _ => c

def blacken : RBTree ι → RBTree ι
  | nil => nil
  | node _ l i r => node .black l i r

def RedChildrenBlack : RBTree ι → Prop
  | nil => True
  | node c l _ r =>
    (c = .red → l.color = .black ∧ r.color = .black) ∧ l.RedChildrenBlack ∧ r.RedChildrenBlack

/-- The number of black nodes on each path from the root to an empty subtree. -/
def blackCounts : RBTree ι → List Nat
  | nil => [0]
  | node c l _ r => (l.blackCounts ++ r.blackCounts).map (· + if c = .black then 1 else 0)

theorem inorder_length (t : RBTree ι) : t.inorder.length = t.size := by
  induction t with
  | nil => rfl
  | node c l i r ihl ihr =>
    simp only [inorder, size, List.length_append, List.length_cons, ihl, ihr]
    omega

@[simp] theorem inorder_blacken (t : RBTree ι) : t.blacken.inorder = t.inorder := by
  cases t <;> rfl

theorem join_opp (d : Dir) (c : Color) (i : ι) (near far : RBTree ι) :
    join d.opp c i near far = join d c i far near := by cases d <;> rfl

theorem blacken_eq {t : RBTree ι} (black : t.color = .black) : t.blacken = t := by
  cases t with
  | nil => rfl
  | node c l i r => simp only [color] at black; simp [blacken, black]

theorem blacken_join (d : Dir) (c : Color) (i : ι) (near far : RBTree ι) :
    (join d c i near far).blacken = join d .black i near far := by cases d <;> rfl

theorem color_join (d : Dir) (c : Color) (i : ι) (near far : RBTree ι) : (join d c i near far).color = c := by
  cases d <;> rfl

theorem inorder_join_perm (d : Dir) (c : Color) (i : ι) (near far : RBTree ι) :
    (join d c i near far).inorder.Perm (i :: (near.inorder ++ far.inorder)) := by
  cases d
  · exact List.perm_middle
  · exact List.perm_middle.trans (List.perm_append_comm.cons i)

theorem inorder_rotate (d : Dir) (c e : Color) (x y : ι) (a b f : RBTree ι) :
    (join d c x a (join d e y b f)).inorder = (join d e y (join d c x a b) f).inorder := by
  cases d <;> simp [join, inorder]

theorem inorder_join_congr (d : Dir) (c c' : Color) (i : ι) {near near' far far' : RBTree ι}
    (sameNear : near.inorder = near'.inorder) (sameFar : far.inorder = far'.inorder) :
    (join d c i near far).inorder = (join d c' i near' far').inorder := by
  cases d <;> simp [join, inorder, sameNear, sameFar]

end RBTree

/-- One step on the way from a subtree to the root: the subtree hangs on side
    `dir` of `cell`, whose other child is `sibling`. -/
structure Frame (ι : Type) where
  dir : Dir
  color : Color
  cell : ι
  sibling : RBTree ι

/-- Rebuild the whole tree around a subtree, innermost frame first. -/
def plug : List (Frame ι) → RBTree ι → RBTree ι
  | [], t => t
  | f :: fs, t => plug fs (.join f.dir f.color f.cell t f.sibling)

def before : List (Frame ι) → List ι
  | [] => []
  | f :: fs => before fs ++ if f.dir = .right then f.sibling.inorder ++ [f.cell] else []

def after : List (Frame ι) → List ι
  | [] => []
  | f :: fs => (if f.dir = .left then f.cell :: f.sibling.inorder else []) ++ after fs

def cells : List (Frame ι) → List ι
  | [] => []
  | f :: fs => f.cell :: (f.sibling.inorder ++ cells fs)

theorem plug_append (fs gs : List (Frame ι)) (t : RBTree ι) :
    plug (fs ++ gs) t = plug gs (plug fs t) := by
  induction fs generalizing t with
  | nil => rfl
  | cons f fs ih => exact ih _

theorem inorder_plug (fs : List (Frame ι)) (t : RBTree ι) :
    (plug fs t).inorder = before fs ++ t.inorder ++ after fs := by
  induction fs generalizing t with
  | nil => simp [plug, before, after]
  | cons f fs ih =>
    obtain ⟨d, c, i, s⟩ := f
    cases d <;> simp [plug, before, after, ih, RBTree.join, RBTree.inorder]

theorem inorder_plug_congr (fs : List (Frame ι)) {t t' : RBTree ι} (same : t.inorder = t'.inorder) :
    (plug fs t).inorder = (plug fs t').inorder := by
  rw [inorder_plug, inorder_plug, same]

theorem inorder_plug_perm (fs : List (Frame ι)) (t : RBTree ι) :
    (plug fs t).inorder.Perm (t.inorder ++ cells fs) := by
  induction fs generalizing t with
  | nil => simp [plug, cells]
  | cons f fs ih =>
    refine (ih _).trans ?_
    refine ((RBTree.inorder_join_perm f.dir f.color f.cell t f.sibling).append_right (cells fs)).trans ?_
    simp only [cells, List.cons_append, List.append_assoc]
    exact List.perm_middle.symm

theorem before_subset {fs : List (Frame ι)} : before fs ⊆ cells fs := by
  induction fs with
  | nil => simp [before]
  | cons f fs ih =>
    intro i member
    simp only [before, List.mem_append, cells, List.mem_cons] at member ⊢
    rcases member with outer | here
    · exact .inr (.inr (ih outer))
    · split at here
      · rcases List.mem_append.mp here with sibling | cell
        · exact .inr (.inl sibling)
        · exact .inl (List.mem_singleton.mp cell)
      · cases here

theorem after_subset {fs : List (Frame ι)} : after fs ⊆ cells fs := by
  induction fs with
  | nil => simp [after]
  | cons f fs ih =>
    intro i member
    simp only [after, List.mem_append, cells, List.mem_cons] at member ⊢
    rcases member with here | outer
    · split at here
      · rcases List.mem_cons.mp here with cell | sibling
        · exact .inl cell
        · exact .inr (.inl sibling)
      · cases here
    · exact .inr (.inr (ih outer))

theorem plug_ne_nil {t : RBTree ι} {fs : List (Frame ι)} (nonempty : fs ≠ []) : plug fs t ≠ .nil := by
  intro empty
  have count := (inorder_plug_perm fs t).length_eq
  cases fs with
  | nil => exact nonempty rfl
  | cons f fs =>
    rw [empty] at count
    simp [RBTree.inorder, cells] at count

theorem length_le_cells (fs : List (Frame ι)) : fs.length ≤ (cells fs).length := by
  induction fs with
  | nil => rfl
  | cons f fs ih =>
    simp only [cells, List.length_cons, List.length_append]
    omega

theorem exists_leftmost {t : RBTree ι} (nonempty : t ≠ .nil) :
    ∃ fs c i r, t = plug fs (.node c .nil i r) ∧ before fs = [] := by
  induction t with
  | nil => exact absurd rfl nonempty
  | node c l i r ihl _ =>
    by_cases empty : l = .nil
    · exact ⟨[], c, i, r, by rw [empty]; rfl, rfl⟩
    · obtain ⟨fs, c', j, r', form, first⟩ := ihl empty
      refine ⟨fs ++ [⟨.left, c, i, r⟩], c', j, r', ?_, ?_⟩
      · rw [plug_append, ← form]
        rfl
      · clear form
        induction fs with
        | nil => simp [before]
        | cons f fs ih =>
          simp only [before, List.append_eq_nil_iff] at first
          simp only [List.cons_append, before, first.2, List.append_nil]
          exact ih first.1

/-- Every cell of a tree can be brought into focus. -/
theorem exists_plug {t : RBTree ι} {z : ι} (member : z ∈ t.inorder) : ∃ fs c l r, t = plug fs (.node c l z r) := by
  induction t with
  | nil => simp [RBTree.inorder] at member
  | node c l i r ihl ihr =>
    simp only [RBTree.inorder, List.mem_append, List.mem_cons] at member
    rcases member with member | rfl | member
    · obtain ⟨fs, c', l', r', rfl⟩ := ihl member
      refine ⟨fs ++ [⟨.left, c, i, r⟩], c', l', r', ?_⟩
      rw [plug_append]
      rfl
    · exact ⟨[], c, l, r, rfl⟩
    · obtain ⟨fs, c', l', r', rfl⟩ := ihr member
      refine ⟨fs ++ [⟨.right, c, i, l⟩], c', l', r', ?_⟩
      rw [plug_append]
      rfl

inductive Balanced : RBTree ι → Color → Nat → Prop
  | nil : Balanced .nil .black 0
  | red {l r : RBTree ι} {i : ι} {n : Nat} :
      Balanced l .black n → Balanced r .black n → Balanced (.node .red l i r) .red n
  | black {l r : RBTree ι} {i : ι} {c₁ c₂ : Color} {n : Nat} :
      Balanced l c₁ n → Balanced r c₂ n → Balanced (.node .black l i r) .black (n + 1)

/-- A context that becomes a balanced tree with a black root once its hole holds a
    balanced subtree of the given colour and black height. -/
inductive Fits : List (Frame ι) → Color → Nat → Prop
  | root {n : Nat} : Fits [] .black n
  | red {d : Dir} {i : ι} {s : RBTree ι} {fs : List (Frame ι)} {n : Nat} :
      Balanced s .black n → Fits fs .red n → Fits (⟨d, .red, i, s⟩ :: fs) .black n
  | black {d : Dir} {i : ι} {s : RBTree ι} {fs : List (Frame ι)} {c c' : Color} {n : Nat} :
      Balanced s c' n → Fits fs .black (n + 1) → Fits (⟨d, .black, i, s⟩ :: fs) c n

theorem Balanced.color_eq {t : RBTree ι} {c : Color} {n : Nat} (balanced : Balanced t c n) : t.color = c := by
  cases balanced <;> rfl

theorem Balanced.joinRed {d : Dir} {i : ι} {near far : RBTree ι} {n : Nat}
    (hn : Balanced near .black n) (hf : Balanced far .black n) : Balanced (.join d .red i near far) .red n := by
  cases d
  · exact .red hn hf
  · exact .red hf hn

theorem Balanced.joinBlack {d : Dir} {i : ι} {near far : RBTree ι} {c₁ c₂ : Color} {n : Nat}
    (hn : Balanced near c₁ n) (hf : Balanced far c₂ n) :
    Balanced (.join d .black i near far) .black (n + 1) := by
  cases d
  · exact .black hn hf
  · exact .black hf hn

theorem Balanced.of_join {d : Dir} {c₀ c : Color} {i : ι} {near far : RBTree ι} {n : Nat}
    (balanced : Balanced (.join d c₀ i near far) c n) :
    (c₀ = .red ∧ c = .red ∧ Balanced near .black n ∧ Balanced far .black n) ∨
      (c₀ = .black ∧ c = .black ∧ ∃ c₁ c₂ m, n = m + 1 ∧ Balanced near c₁ m ∧ Balanced far c₂ m) := by
  cases d <;> cases balanced with
  | red hl hr => exact .inl ⟨rfl, rfl, ‹_›, ‹_›⟩
  | black hl hr => exact .inr ⟨rfl, rfl, _, _, _, rfl, ‹_›, ‹_›⟩

theorem Balanced.redParts (d : Dir) {t : RBTree ι} {n : Nat} (balanced : Balanced t .red n) :
    ∃ i near far, t = .join d .red i near far ∧ Balanced near .black n ∧ Balanced far .black n := by
  cases balanced with
  | @red l r i _ hl hr =>
    cases d
    · exact ⟨i, l, r, rfl, hl, hr⟩
    · exact ⟨i, r, l, rfl, hr, hl⟩

theorem Balanced.blackParts (d : Dir) {t : RBTree ι} {n : Nat} (balanced : Balanced t .black (n + 1)) :
    ∃ i near far c₁ c₂, t = .join d .black i near far ∧ Balanced near c₁ n ∧ Balanced far c₂ n := by
  cases balanced with
  | @black l r i c₁ c₂ _ hl hr =>
    cases d
    · exact ⟨i, l, r, c₁, c₂, rfl, hl, hr⟩
    · exact ⟨i, r, l, c₂, c₁, rfl, hr, hl⟩

theorem Balanced.blacken {t : RBTree ι} {n : Nat} (balanced : Balanced t .red n) :
    Balanced t.blacken .black (n + 1) := by
  cases balanced with
  | red hl hr => exact .black hl hr

theorem Fits.to_black {fs : List (Frame ι)} {c : Color} {n : Nat} (fits : Fits fs c n) :
    Fits fs .black n := by
  cases fits with
  | root => exact .root
  | red hs hf => exact .red hs hf
  | black hs hf => exact .black hs hf

theorem Fits.rename {gs fs : List (Frame ι)} {d : Dir} {c₀ c : Color} {i j : ι} {t : RBTree ι} {n : Nat}
    (fits : Fits (gs ++ ⟨d, c₀, i, t⟩ :: fs) c n) : Fits (gs ++ ⟨d, c₀, j, t⟩ :: fs) c n := by
  induction gs generalizing c n with
  | nil =>
    cases fits with
    | red hs hf => exact .red hs hf
    | black hs hf => exact .black hs hf
  | cons g gs ih =>
    cases fits with
    | red hs hf => exact .red hs (ih hf)
    | black hs hf => exact .black hs (ih hf)

theorem Fits.plug {fs : List (Frame ι)} {t : RBTree ι} {c : Color} {n : Nat}
    (fits : Fits fs c n) (balanced : Balanced t c n) : ∃ m, Balanced (plug fs t) .black m := by
  induction fs generalizing t c n with
  | nil => cases fits with | root => exact ⟨n, balanced⟩
  | cons f fs ih =>
    cases fits with
    | red hs hf => exact ih hf (balanced.joinRed hs)
    | black hs hf => exact ih hf (balanced.joinBlack hs)

theorem Balanced.unplug {fs : List (Frame ι)} {t : RBTree ι} {m : Nat}
    (balanced : Balanced (RedBlack.plug fs t) .black m) : ∃ c n, Balanced t c n ∧ Fits fs c n := by
  induction fs generalizing t with
  | nil => exact ⟨.black, m, balanced, .root⟩
  | cons f fs ih =>
    obtain ⟨d, c₀, i, s⟩ := f
    obtain ⟨c, n, inner, outer⟩ := ih balanced
    rcases inner.of_join with ⟨rfl, rfl, near, far⟩ | ⟨rfl, rfl, c₁, c₂, k, rfl, near, far⟩
    · exact ⟨.black, n, near, .red far outer⟩
    · exact ⟨c₁, k, near, .black far outer⟩

theorem Balanced.redChildrenBlack {t : RBTree ι} {c : Color} {n : Nat} (balanced : Balanced t c n) :
    t.RedChildrenBlack := by
  induction balanced with
  | nil => trivial
  | red hl hr ihl ihr => exact ⟨fun _ => ⟨hl.color_eq, hr.color_eq⟩, ihl, ihr⟩
  | black hl hr ihl ihr => exact ⟨by simp, ihl, ihr⟩

theorem Balanced.blackCounts_eq {t : RBTree ι} {c : Color} {n : Nat} (balanced : Balanced t c n) :
    ∀ k ∈ t.blackCounts, k = n := by
  induction balanced with
  | nil => simp [RBTree.blackCounts]
  | red hl hr ihl ihr =>
    intro k member
    simp only [RBTree.blackCounts, List.mem_map, List.mem_append] at member
    obtain ⟨m, member, rfl⟩ := member
    rcases member with member | member
    · simp [ihl m member]
    · simp [ihr m member]
  | black hl hr ihl ihr =>
    intro k member
    simp only [RBTree.blackCounts, List.mem_map, List.mem_append] at member
    obtain ⟨m, member, rfl⟩ := member
    rcases member with member | member
    · simp [ihl m member]
    · simp [ihr m member]

theorem Balanced.pow_le_size {t : RBTree ι} {c : Color} {n : Nat} (balanced : Balanced t c n) :
    2 ^ n ≤ t.size + 1 := by
  induction balanced with
  | nil => simp
  | red hl hr ihl ihr =>
    simp only [RBTree.size]
    omega
  | black hl hr ihl ihr =>
    simp only [RBTree.size, Nat.pow_succ]
    omega

theorem Balanced.height_le {t : RBTree ι} {c : Color} {n : Nat} (balanced : Balanced t c n) :
    t.height ≤ 2 * n + if c = .red then 1 else 0 := by
  induction balanced with
  | nil => simp [RBTree.height]
  | red hl hr ihl ihr =>
    simp only [reduceCtorEq, ite_false, Nat.add_zero] at ihl ihr
    simp only [RBTree.height, if_true]
    omega
  | @black l r i c₁ c₂ n hl hr ihl ihr =>
    have bound (c : Color) : (if c = .red then 1 else 0) ≤ 1 := by split <;> omega
    have h₁ := bound c₁
    have h₂ := bound c₂
    simp only [RBTree.height, reduceCtorEq, ite_false]
    omega

/-- A balanced tree with a black root is at most twice as high as a perfect one. -/
theorem Balanced.height_le_log {t : RBTree ι} {n : Nat} (balanced : Balanced t .black n) :
    t.height ≤ 2 * Nat.log 2 (t.size + 1) := by
  have high := balanced.height_le
  simp only [reduceCtorEq, ite_false, Nat.add_zero] at high
  have wide := Nat.le_log_of_pow_le Nat.one_lt_two balanced.pow_le_size
  omega

end RedBlack
