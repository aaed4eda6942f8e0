import Titan.Data.RedBlack

namespace RedBlack

variable {ι : Type}

/-- RBTree links kept per cell, as an index-addressed pool stores them. -/
structure Store (ι : Type) where
  child : Dir → ι → ι
  parent : ι → ι
  color : ι → Color
  root : ι

namespace Store

section Writes

variable [DecidableEq ι]

def setChild (s : Store ι) (d : Dir) (i v : ι) : Store ι :=
  { s with child := fun e j => if e = d ∧ j = i then v else s.child e j }

def setParent (s : Store ι) (i v : ι) : Store ι :=
  { s with parent := fun j => if j = i then v else s.parent j }

def setColor (s : Store ι) (i : ι) (c : Color) : Store ι :=
  { s with color := fun j => if j = i then c else s.color j }

@[simp] theorem setChild_child (s : Store ι) (d e : Dir) (i j v : ι) :
    (s.setChild d i v).child e j = if e = d ∧ j = i then v else s.child e j := rfl
@[simp] theorem setChild_parent (s : Store ι) (d : Dir) (i v : ι) : (s.setChild d i v).parent = s.parent := rfl
@[simp] theorem setChild_color (s : Store ι) (d : Dir) (i v : ι) : (s.setChild d i v).color = s.color := rfl
@[simp] theorem setChild_root (s : Store ι) (d : Dir) (i v : ι) : (s.setChild d i v).root = s.root := rfl
@[simp] theorem setParent_child (s : Store ι) (i v : ι) : (s.setParent i v).child = s.child := rfl
@[simp] theorem setParent_parent (s : Store ι) (i j v : ι) :
    (s.setParent i v).parent j = if j = i then v else s.parent j := rfl
@[simp] theorem setParent_color (s : Store ι) (i v : ι) : (s.setParent i v).color = s.color := rfl
@[simp] theorem setParent_root (s : Store ι) (i v : ι) : (s.setParent i v).root = s.root := rfl
@[simp] theorem setColor_child (s : Store ι) (i : ι) (c : Color) : (s.setColor i c).child = s.child := rfl
@[simp] theorem setColor_parent (s : Store ι) (i : ι) (c : Color) : (s.setColor i c).parent = s.parent := rfl
@[simp] theorem setColor_color (s : Store ι) (i j : ι) (c : Color) :
    (s.setColor i c).color j = if j = i then c else s.color j := rfl
@[simp] theorem setColor_root (s : Store ι) (i : ι) (c : Color) : (s.setColor i c).root = s.root := rfl

end Writes

def setRoot (s : Store ι) (v : ι) : Store ι := { s with root := v }

@[simp] theorem setRoot_child (s : Store ι) (v : ι) : (s.setRoot v).child = s.child := rfl
@[simp] theorem setRoot_parent (s : Store ι) (v : ι) : (s.setRoot v).parent = s.parent := rfl
@[simp] theorem setRoot_color (s : Store ι) (v : ι) : (s.setRoot v).color = s.color := rfl
@[simp] theorem setRoot_root (s : Store ι) (v : ι) : (s.setRoot v).root = v := rfl

def Agree (s s' : Store ι) (i : ι) : Prop :=
  (∀ d, s'.child d i = s.child d i) ∧ s'.parent i = s.parent i ∧ s'.color i = s.color i

end Store

/-- The cell at the root of a subtree, or the sentinel `o`. -/
def RBTree.top (o : ι) : RBTree ι → ι
  | .nil => o
  | .node _ _ i _ => i

def holder (o : ι) : List (Frame ι) → ι
  | [] => o
  | f :: _ => f.cell

variable {o : ι} {s s' : Store ι} {p : ι} {t : RBTree ι} {fs : List (Frame ι)}

@[simp] theorem RBTree.top_join (d : Dir) (c : Color) (i : ι) (near far : RBTree ι) :
    (RBTree.join d c i near far).top o = i := by cases d <;> rfl

@[simp] theorem RBTree.top_node (c : Color) (l : RBTree ι) (i : ι) (r : RBTree ι) :
    (RBTree.node c l i r).top o = i := rfl

@[simp] theorem RBTree.top_nil : (RBTree.nil : RBTree ι).top o = o := rfl

theorem RBTree.top_mem (nonempty : t ≠ .nil) : t.top o ∈ t.inorder := by
  cases t with
  | nil => exact absurd rfl nonempty
  | node c l i r => simp [RBTree.inorder]

def Represents (s : Store ι) (o : ι) : ι → RBTree ι → Prop
  | _, .nil => True
  | p, .node c l i r =>
    i ≠ o ∧ s.color i = c ∧ s.parent i = p ∧ s.child .left i = l.top o ∧ s.child .right i = r.top o ∧
      Represents s o i l ∧ Represents s o i r

/-- The frames lie in the store around a hole whose incoming link is `h`. -/
def Surrounds (s : Store ι) (o : ι) : List (Frame ι) → ι → Prop
  | [], h => s.root = h
  | f :: fs, h =>
    f.cell ≠ o ∧ s.color f.cell = f.color ∧ s.parent f.cell = holder o fs ∧ s.child f.dir f.cell = h ∧
      s.child f.dir.opp f.cell = f.sibling.top o ∧ Represents s o f.cell f.sibling ∧ Surrounds s o fs f.cell

theorem represents_join {d : Dir} {c : Color} {i : ι} {near far : RBTree ι} :
    Represents s o p (.join d c i near far) ↔
      i ≠ o ∧ s.color i = c ∧ s.parent i = p ∧ s.child d i = near.top o ∧ s.child d.opp i = far.top o ∧
        Represents s o i near ∧ Represents s o i far := by
  cases d
  · exact Iff.rfl
  · simp only [RBTree.join, Represents, Dir.opp]
    tauto

theorem Represents.color_top (represents : Represents s o p t) (sentinel : s.color o = .black) :
    s.color (t.top o) = t.color := by
  cases t with
  | nil => exact sentinel
  | node c l i r => exact represents.2.1

theorem Represents.top_ne (represents : Represents s o p t) (nonempty : t ≠ .nil) : t.top o ≠ o := by
  cases t with
  | nil => exact absurd rfl nonempty
  | node c l i r => exact represents.1

theorem Represents.parent_top (represents : Represents s o p t) (nonempty : t ≠ .nil) :
    s.parent (t.top o) = p := by
  cases t with
  | nil => exact absurd rfl nonempty
  | node c l i r => exact represents.2.2.1

theorem Represents.congr (represents : Represents s o p t) (agree : ∀ i ∈ t.inorder, s.Agree s' i) :
    Represents s' o p t := by
  induction t generalizing p with
  | nil => trivial
  | node c l i r ihl ihr =>
    obtain ⟨real, color, parent, left, right, hl, hr⟩ := represents
    obtain ⟨sameChild, sameParent, sameColor⟩ := agree i (by simp [RBTree.inorder])
    refine ⟨real, sameColor.trans color, sameParent.trans parent, (sameChild _).trans left,
      (sameChild _).trans right, ihl hl ?_, ihr hr ?_⟩
    · intro j member
      exact agree j (by simp [RBTree.inorder, member])
    · intro j member
      exact agree j (by simp [RBTree.inorder, member])

theorem Represents.reparent {q : ι} (represents : Represents s o p t) (distinct : t.inorder.Nodup)
    (agree : ∀ i ∈ t.inorder, i ≠ t.top o → s.Agree s' i)
    (children : ∀ d, s'.child d (t.top o) = s.child d (t.top o))
    (color : s'.color (t.top o) = s.color (t.top o))
    (moved : t ≠ .nil → s'.parent (t.top o) = q) : Represents s' o q t := by
  cases t with
  | nil => trivial
  | node c l i r =>
    obtain ⟨real, hc, _, left, right, hl, hr⟩ := represents
    simp only [RBTree.inorder, List.nodup_append, List.nodup_cons, List.mem_cons, RBTree.top] at *
    refine ⟨real, color.trans hc, moved (by simp), (children _).trans left, (children _).trans right,
      hl.congr ?_, hr.congr ?_⟩
    · intro j member
      exact agree j (by simp [member]) (fun same => distinct.2.2 j member i (Or.inl rfl) same)
    · intro j member
      exact agree j (by simp [member]) (by rintro rfl; exact distinct.2.1.1 member)

theorem Surrounds.congr {h : ι} (surrounds : Surrounds s o fs h) (sameRoot : s'.root = s.root)
    (agree : ∀ i ∈ cells fs, s.Agree s' i) : Surrounds s' o fs h := by
  induction fs generalizing h with
  | nil => exact sameRoot.trans surrounds
  | cons f fs ih =>
    obtain ⟨real, color, parent, here, other, sibling, outer⟩ := surrounds
    obtain ⟨sameChild, sameParent, sameColor⟩ := agree f.cell (by simp [cells])
    refine ⟨real, sameColor.trans color, sameParent.trans parent, (sameChild _).trans here,
      (sameChild _).trans other, sibling.congr ?_, ih outer ?_⟩
    · intro i member
      exact agree i (by simp [cells, member])
    · intro i member
      exact agree i (by simp [cells, member])

theorem Represents.sentinel_not_mem (represents : Represents s o p t) : o ∉ t.inorder := by
  induction t generalizing p with
  | nil => simp [RBTree.inorder]
  | node c l i r ihl ihr =>
    obtain ⟨real, _, _, _, _, hl, hr⟩ := represents
    simp [RBTree.inorder, ihl hl, ihr hr, real.symm]

theorem Surrounds.sentinel_not_mem {h : ι} (surrounds : Surrounds s o fs h) : o ∉ cells fs := by
  induction fs generalizing h with
  | nil => simp [cells]
  | cons f fs ih =>
    obtain ⟨real, _, _, _, _, sibling, outer⟩ := surrounds
    simp [cells, real.symm, sibling.sentinel_not_mem, ih outer]

theorem Surrounds.root_mem {f : Frame ι} {h : ι} (surrounds : Surrounds s o (f :: fs) h) :
    s.root ∈ cells (f :: fs) ∧ s.root ≠ o := by
  induction fs generalizing f h with
  | nil =>
    obtain ⟨real, _, _, _, _, _, root⟩ := surrounds
    have root : s.root = f.cell := root
    exact ⟨by simp [cells, root], by rwa [root]⟩
  | cons g fs ih =>
    obtain ⟨_, _, _, _, _, _, outer⟩ := surrounds
    obtain ⟨member, real⟩ := ih outer
    refine ⟨?_, real⟩
    rw [cells]
    exact List.mem_cons_of_mem _ (List.mem_append_right _ member)

section Frames

variable [DecidableEq ι] {d : Dir} {i v h : ι} {c : Color}

def Store.setHole (s : Store ι) : List (Frame ι) → ι → Store ι
  | [], v => s.setRoot v
  | f :: _, v => s.setChild f.dir f.cell v

@[simp] theorem Store.setHole_parent (s : Store ι) (fs : List (Frame ι)) (v : ι) :
    (s.setHole fs v).parent = s.parent := by cases fs <;> rfl

@[simp] theorem Store.setHole_color (s : Store ι) (fs : List (Frame ι)) (v : ι) :
    (s.setHole fs v).color = s.color := by cases fs <;> rfl

theorem Store.setHole_child (s : Store ι) (e : Dir) (j : ι) (other : j ∉ cells fs) :
    (s.setHole fs v).child e j = s.child e j := by
  cases fs with
  | nil => rfl
  | cons f fs =>
    have apart : j ≠ f.cell := by rintro rfl; exact other (by simp [cells])
    simp [Store.setHole, apart]

theorem Represents.setChild (represents : Represents s o p t) (fresh : i ∉ t.inorder) :
    Represents (s.setChild d i v) o p t := by
  apply represents.congr
  intro j member
  have apart : j ≠ i := by rintro rfl; exact fresh member
  simp [Store.Agree, apart]

theorem Represents.setParent (represents : Represents s o p t) (fresh : i ∉ t.inorder) :
    Represents (s.setParent i v) o p t := by
  apply represents.congr
  intro j member
  have apart : j ≠ i := by rintro rfl; exact fresh member
  simp [Store.Agree, apart]

theorem Represents.setColor (represents : Represents s o p t) (fresh : i ∉ t.inorder) :
    Represents (s.setColor i c) o p t := by
  apply represents.congr
  intro j member
  have apart : j ≠ i := by rintro rfl; exact fresh member
  simp [Store.Agree, apart]

theorem Represents.setHole (represents : Represents s o p t) (apart : ∀ j ∈ t.inorder, j ∉ cells fs) :
    Represents (s.setHole fs v) o p t := by
  apply represents.congr
  intro j member
  simp [Store.Agree, s.setHole_child _ j (apart j member)]

theorem Represents.moveTo (represents : Represents s o p t) (distinct : t.inorder.Nodup) :
    Represents (s.setParent (t.top o) v) o v t := by
  apply represents.reparent distinct
  · intro j _ other
    simp [Store.Agree, other]
  · simp
  · simp
  · simp

theorem Surrounds.setChild (surrounds : Surrounds s o fs h) (fresh : i ∉ cells fs) :
    Surrounds (s.setChild d i v) o fs h := by
  refine surrounds.congr (s.setChild_root d i v) ?_
  intro j member
  have apart : j ≠ i := by rintro rfl; exact fresh member
  simp [Store.Agree, apart]

theorem Surrounds.setParent (surrounds : Surrounds s o fs h) (fresh : i ∉ cells fs) :
    Surrounds (s.setParent i v) o fs h := by
  refine surrounds.congr (s.setParent_root i v) ?_
  intro j member
  have apart : j ≠ i := by rintro rfl; exact fresh member
  simp [Store.Agree, apart]

theorem Surrounds.setColor (surrounds : Surrounds s o fs h) (fresh : i ∉ cells fs) :
    Surrounds (s.setColor i c) o fs h := by
  refine surrounds.congr (s.setColor_root i c) ?_
  intro j member
  have apart : j ≠ i := by rintro rfl; exact fresh member
  simp [Store.Agree, apart]

theorem Surrounds.setHole (surrounds : Surrounds s o fs h) (distinct : (cells fs).Nodup) :
    Surrounds (s.setHole fs v) o fs v := by
  cases fs with
  | nil => rfl
  | cons f fs =>
    obtain ⟨real, color, parent, _, far, sibling, outer⟩ := surrounds
    simp only [cells, List.nodup_cons, List.mem_append, not_or] at distinct
    refine ⟨real, color, parent, by simp [Store.setHole], by simpa [Store.setHole] using far, ?_, ?_⟩
    · exact sibling.setChild distinct.1.1
    · exact outer.setChild distinct.1.2

end Frames

/-- A store seen from one subtree: the subtree, the frames around it, and no cell twice. -/
structure Focus (s : Store ι) (o : ι) (fs : List (Frame ι)) (t : RBTree ι) : Prop where
  outer : Surrounds s o fs (t.top o)
  inner : Represents s o (holder o fs) t
  distinct : (t.inorder ++ cells fs).Nodup

theorem Focus.up {f : Frame ι} (focus : Focus s o (f :: fs) t) :
    Focus s o fs (.join f.dir f.color f.cell t f.sibling) := by
  obtain ⟨⟨real, color, parent, here, other, sibling, outer⟩, inner, distinct⟩ := focus
  refine ⟨by simpa using outer, represents_join.mpr ⟨real, color, parent, here, other, inner, sibling⟩, ?_⟩
  have moved := List.perm_middle.nodup_iff.mp distinct
  refine ((RBTree.inorder_join_perm _ _ _ _ _).append_right _).nodup_iff.mpr ?_
  simpa only [List.cons_append, List.append_assoc] using moved

theorem Focus.down {d : Dir} {c : Color} {i : ι} {near far : RBTree ι}
    (focus : Focus s o fs (.join d c i near far)) : Focus s o (⟨d, c, i, far⟩ :: fs) near := by
  obtain ⟨outer, inner, distinct⟩ := focus
  obtain ⟨real, color, parent, here, other, hn, hf⟩ := represents_join.mp inner
  refine ⟨⟨real, color, parent, here, other, hf, by simpa using outer⟩, hn, ?_⟩
  refine List.perm_middle.nodup_iff.mpr ?_
  have moved := ((RBTree.inorder_join_perm d c i near far).append_right (cells fs)).nodup_iff.mp distinct
  simpa only [List.cons_append, List.append_assoc] using moved

theorem Focus.raise {gs : List (Frame ι)} (focus : Focus s o (fs ++ gs) t) : Focus s o gs (plug fs t) := by
  induction fs generalizing t with
  | nil => exact focus
  | cons f fs ih => exact ih focus.up

theorem Focus.lower {gs : List (Frame ι)} (focus : Focus s o gs (plug fs t)) : Focus s o (fs ++ gs) t := by
  induction fs generalizing t with
  | nil => exact focus
  | cons f fs ih => exact (ih focus).down

theorem Focus.whole (focus : Focus s o fs t) : Focus s o [] (plug fs t) :=
  Focus.raise (by rwa [List.append_nil])

theorem Focus.of_whole (focus : Focus s o [] (plug fs t)) : Focus s o fs t := by
  have lowered := focus.lower
  rwa [List.append_nil] at lowered

theorem Focus.recolor [DecidableEq ι] {d : Dir} {c : Color} {i : ι} {near far : RBTree ι} (c' : Color)
    (focus : Focus s o fs (.join d c i near far)) :
    Focus (s.setColor i c') o fs (.join d c' i near far) := by
  obtain ⟨outer, inner, distinct⟩ := focus
  obtain ⟨real, _, parent, here, other, hn, hf⟩ := represents_join.mp inner
  have apart := ((RBTree.inorder_join_perm d c i near far).append_right (cells fs)).nodup_iff.mp distinct
  simp only [List.cons_append, List.nodup_cons, List.mem_append, not_or] at apart
  obtain ⟨⟨⟨freshNear, freshFar⟩, freshCells⟩, rest⟩ := apart
  have agree (j : ι) (other : j ≠ i) : s.Agree (s.setColor i c') j := by simp [Store.Agree, other]
  refine ⟨?_, represents_join.mpr ⟨real, by simp, parent, here, other, hn.congr ?_, hf.congr ?_⟩, ?_⟩
  · rw [RBTree.top_join] at outer ⊢
    refine outer.congr (s.setColor_root i c') ?_
    intro j member
    exact agree j (by rintro rfl; exact freshCells member)
  · intro j member
    exact agree j (by rintro rfl; exact freshNear member)
  · intro j member
    exact agree j (by rintro rfl; exact freshFar member)
  · rwa [RBTree.inorder_join_congr d c' c i rfl rfl]

end RedBlack
