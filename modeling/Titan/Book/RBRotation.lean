import Titan.Book.RBPriceIndex

namespace Titan.RBPriceIndex

open RedBlack

variable {s : Store Nat} {fs : List (Frame Nat)}

theorem replaceChild_eq {d : Dir} {u v : Nat} (outer : Surrounds s NIL fs u) (real : u ≠ NIL)
    (parent : s.parent u = holder NIL fs) (fresh : u ∉ cells fs) :
    replaceChild d s u v = s.setHole fs v := by
  cases fs with
  | nil => simp [replaceChild, parent, holder, Store.setHole]
  | cons f fs =>
    obtain ⟨realF, _, _, here, far, _, _⟩ := outer
    have elsewhere : f.sibling.top NIL ≠ u := by
      intro same
      cases hs : f.sibling with
      | nil => rw [hs] at same; exact real same.symm
      | node c l i r =>
        apply fresh
        have member := RBTree.top_mem (o := NIL) (t := f.sibling) (by simp [hs])
        rw [same] at member
        simp [cells, member]
    simp only [replaceChild, parent, holder, Store.setHole]
    rw [if_neg realF]
    rcases Dir.eq_or_opp d f.dir with same | opposite
    · rw [if_pos (by rw [← same, here]), same]
    · rw [opposite, Dir.opp_opp] at far
      rw [if_neg (by rw [far]; exact fun same => elsewhere same.symm), opposite]

structure RotationApart (x y : Nat) (a b f : RBTree Nat) (outside : List Nat) : Prop where
  xy : x ≠ y
  xa : x ∉ a.inorder
  xb : x ∉ b.inorder
  xf : x ∉ f.inorder
  xo : x ∉ outside
  ya : y ∉ a.inorder
  yb : y ∉ b.inorder
  yf : y ∉ f.inorder
  yo : y ∉ outside
  ba : ∀ i ∈ b.inorder, i ∉ a.inorder
  bf : ∀ i ∈ b.inorder, i ∉ f.inorder
  bo : ∀ i ∈ b.inorder, i ∉ outside
  ao : ∀ i ∈ a.inorder, i ∉ outside
  fo : ∀ i ∈ f.inorder, i ∉ outside
  nodupB : b.inorder.Nodup
  nodupOutside : outside.Nodup

theorem rotation_apart {d : Dir} {c e : Color} {x y : Nat} {a b f : RBTree Nat}
    (distinct : ((RBTree.join d c x a (.join d e y b f)).inorder ++ cells fs).Nodup) :
    RotationApart x y a b f (cells fs) := by
  have outer := RBTree.inorder_join_perm d c x a (.join d e y b f)
  have inner := (RBTree.inorder_join_perm d e y b f).append_left a.inorder
  have moved := ((outer.trans (inner.cons x)).append_right (cells fs)).nodup_iff.mp distinct
  have sorted : (x :: (a.inorder ++ y :: (b.inorder ++ f.inorder)) ++ cells fs).Perm
      (x :: y :: (a.inorder ++ (b.inorder ++ (f.inorder ++ cells fs)))) := by
    simp only [List.cons_append, List.append_assoc]
    exact List.perm_middle.cons x
  have apart := sorted.nodup_iff.mp moved
  simp only [List.nodup_cons, List.mem_cons, List.mem_append, List.nodup_append, not_or] at apart
  constructor <;> grind

def handOver (d : Dir) (s : Store Nat) (x y : Nat) (b : RBTree Nat) : Store Nat :=
  let s := s.setChild d.opp x (b.top NIL)
  let s := if b = .nil then s else s.setParent (b.top NIL) x
  s.setParent y (s.parent x)

@[simp] theorem handOver_color (d : Dir) (s : Store Nat) (x y : Nat) (b : RBTree Nat) :
    (handOver d s x y b).color = s.color := by
  unfold handOver
  split <;> rfl

@[simp] theorem handOver_child (d e : Dir) (s : Store Nat) (x y j : Nat) (b : RBTree Nat) :
    (handOver d s x y b).child e j = if e = d.opp ∧ j = x then b.top NIL else s.child e j := by
  unfold handOver
  split <;> rfl

theorem handOver_outer {d : Dir} {x y h : Nat} {b : RBTree Nat} (outer : Surrounds s NIL fs h)
    (freshX : x ∉ cells fs) (freshY : y ∉ cells fs) (freshB : ∀ i ∈ b.inorder, i ∉ cells fs) :
    Surrounds (handOver d s x y b) NIL fs h := by
  unfold handOver
  split
  · exact (outer.setChild freshX).setParent freshY
  · rename_i nonempty
    exact ((outer.setChild freshX).setParent (freshB _ (RBTree.top_mem nonempty))).setParent freshY

theorem handOver_inner {d : Dir} {x y p : Nat} {b t : RBTree Nat} (inner : Represents s NIL p t)
    (freshX : x ∉ t.inorder) (freshY : y ∉ t.inorder) (freshB : ∀ i ∈ b.inorder, i ∉ t.inorder) :
    Represents (handOver d s x y b) NIL p t := by
  unfold handOver
  split
  · exact (inner.setChild freshX).setParent freshY
  · rename_i nonempty
    exact ((inner.setChild freshX).setParent (freshB _ (RBTree.top_mem nonempty))).setParent freshY

theorem handOver_moved {d : Dir} {x y p : Nat} {b : RBTree Nat} (inner : Represents s NIL p b)
    (freshX : x ∉ b.inorder) (freshY : y ∉ b.inorder) (distinct : b.inorder.Nodup) :
    Represents (handOver d s x y b) NIL x b := by
  unfold handOver
  split
  · subst_vars; trivial
  · exact ((inner.setChild freshX).moveTo distinct).setParent freshY

theorem rotate_eq {d : Dir} {c e : Color} {x y : Nat} {a b f : RBTree Nat}
    (focus : Focus s NIL fs (.join d c x a (.join d e y b f))) :
    rotate d s x = (((handOver d s x y b).setHole fs y).setChild d y x).setParent x y := by
  obtain ⟨outer, inner, distinct⟩ := focus
  obtain ⟨realX, _, parentX, _, farX, _, inner⟩ := represents_join.mp inner
  obtain ⟨realY, _, _, nearY, _, hb, _⟩ := represents_join.mp inner
  rw [RBTree.top_join] at outer farX
  have apart := rotation_apart distinct
  have bottom : b = .nil ↔ b.top NIL = NIL := by
    cases b with
    | nil => simp
    | node c l i r => simp [Represents] at hb; simp [hb.1]
  have handed : rotate d s x =
      ((replaceChild d (handOver d s x y b) x y).setChild d y x).setParent x y := by
    simp only [rotate, handOver, farX, Store.setChild_child, nearY, apart.xy.symm, and_false, ite_false, bottom]
    split <;> simp_all
  have topX : b ≠ .nil → b.top NIL ≠ x := fun nonempty same => apart.xb (same ▸ RBTree.top_mem nonempty)
  have keptX : (handOver d s x y b).parent x = holder NIL fs := by
    unfold handOver
    by_cases empty : b = .nil
    · simp [empty, apart.xy, parentX]
    · simp [empty, apart.xy, parentX, Ne.symm (topX empty)]
  rw [handed, replaceChild_eq (handOver_outer outer apart.xo apart.yo apart.bo) realX keptX apart.xo]

theorem rotate_focus {d : Dir} {c e : Color} {x y : Nat} {a b f : RBTree Nat}
    (focus : Focus s NIL fs (.join d c x a (.join d e y b f))) :
    Focus (rotate d s x) NIL fs (.join d e y (.join d c x a b) f) := by
  rw [rotate_eq focus]
  obtain ⟨outer, inner, distinct⟩ := focus
  obtain ⟨realX, colorX, parentX, nearX, _, ha, inner⟩ := represents_join.mp inner
  obtain ⟨realY, colorY, _, _, farY, hb, hf⟩ := represents_join.mp inner
  rw [RBTree.top_join] at outer
  have apart := rotation_apart distinct
  have topX : b ≠ .nil → b.top NIL ≠ x := fun nonempty same => apart.xb (same ▸ RBTree.top_mem nonempty)
  have handedY : (handOver d s x y b).parent y = holder NIL fs := by
    unfold handOver
    by_cases empty : b = .nil
    · simp [empty, parentX]
    · simp [empty, parentX, Ne.symm (topX empty)]
  refine ⟨?_, represents_join.mpr ⟨realY, ?_, ?_, ?_, ?_, represents_join.mpr ⟨realX, ?_, ?_, ?_, ?_, ?_, ?_⟩, ?_⟩, ?_⟩
  · rw [RBTree.top_join]
    exact (((handOver_outer outer apart.xo apart.yo apart.bo).setHole apart.nodupOutside).setChild
      apart.yo).setParent apart.xo
  · simpa using colorY
  · simpa [apart.xy.symm] using handedY
  · simp
  · simpa [Store.setHole_child _ _ _ apart.yo, apart.xy.symm] using farY
  · simpa using colorX
  · simp
  · simpa [Store.setHole_child _ _ _ apart.xo, apart.xy] using nearX
  · simp [Store.setHole_child _ _ _ apart.xo]
  · exact (((handOver_inner ha apart.xa apart.ya apart.ba).setHole apart.ao).setChild apart.ya).setParent apart.xa
  · exact (((handOver_moved hb apart.xb apart.yb apart.nodupB).setHole apart.bo).setChild apart.yb).setParent apart.xb
  · exact (((handOver_inner hf apart.xf apart.yf apart.bf).setHole apart.fo).setChild apart.yf).setParent apart.xf
  · rwa [← RBTree.inorder_rotate]

theorem rotate_color {d : Dir} {c e : Color} {x y : Nat} {a b f : RBTree Nat}
    (focus : Focus s NIL fs (.join d c x a (.join d e y b f))) : (rotate d s x).color = s.color := by
  rw [rotate_eq focus]
  simp

theorem rotate_sentinel {d : Dir} {c e : Color} {x y : Nat} {a b f : RBTree Nat}
    (focus : Focus s NIL fs (.join d c x a (.join d e y b f))) :
    (rotate d s x).parent NIL = s.parent NIL := by
  rw [rotate_eq focus]
  obtain ⟨realX, _, _, _, _, _, inner⟩ := represents_join.mp focus.inner
  obtain ⟨realY, _, _, _, _, hb, _⟩ := represents_join.mp inner
  have bottom : b ≠ .nil → b.top NIL ≠ NIL := by
    cases b with
    | nil => simp
    | node c l i r => exact fun _ => hb.1
  unfold handOver
  by_cases empty : b = .nil
  · simp [empty, realX.symm, realY.symm]
  · simp [empty, realX.symm, realY.symm, (bottom empty).symm]

/-- A focused store together with what its sentinel cell holds. -/
structure Held (s : Store Nat) (q : Nat) (fs : List (Frame Nat)) (t : RBTree Nat) : Prop where
  focus : Focus s NIL fs t
  color : s.color NIL = .black
  parent : s.parent NIL = q

namespace Held

variable {q : Nat} {t : RBTree Nat} {d : Dir} {c : Color} {i : Nat} {near far : RBTree Nat}

theorem up {f : Frame Nat} (held : Held s q (f :: fs) t) :
    Held s q fs (.join f.dir f.color f.cell t f.sibling) := ⟨held.focus.up, held.color, held.parent⟩

theorem down (held : Held s q fs (.join d c i near far)) : Held s q (⟨d, c, i, far⟩ :: fs) near :=
  ⟨held.focus.down, held.color, held.parent⟩

theorem real (held : Held s q fs (.join d c i near far)) : i ≠ NIL := (represents_join.mp held.focus.inner).1

theorem recolor (c' : Color) (held : Held s q fs (.join d c i near far)) :
    Held (s.setColor i c') q fs (.join d c' i near far) :=
  ⟨held.focus.recolor c', by simpa [held.real.symm] using held.color, held.parent⟩

theorem rotate {e : Color} {x y : Nat} {a b f : RBTree Nat} (held : Held s q fs (.join d c x a (.join d e y b f))) :
    Held (rotate d s x) q fs (.join d e y (.join d c x a b) f) :=
  ⟨rotate_focus held.focus, by rw [rotate_color held.focus]; exact held.color,
    (rotate_sentinel held.focus).trans held.parent⟩

theorem downFar (held : Held s q fs (.join d c i near far)) : Held s q (⟨d.opp, c, i, near⟩ :: fs) far := by
  rw [← RBTree.join_opp] at held
  exact held.down

theorem upFar (held : Held s q (⟨d.opp, c, i, near⟩ :: fs) far) : Held s q fs (.join d c i near far) := by
  have raised := held.up
  rwa [RBTree.join_opp] at raised

theorem recolorFar (c' : Color) {e : Color} {d' : Dir} {j : Nat} {a b : RBTree Nat}
    (held : Held s q fs (.join d c i near (.join d' e j a b))) :
    Held (s.setColor j c') q fs (.join d c i near (.join d' c' j a b)) := (held.downFar.recolor c').upFar

theorem recolorNear (c' : Color) {e : Color} {d' : Dir} {j : Nat} {a b : RBTree Nat}
    (held : Held s q fs (.join d c i (.join d' e j a b) far)) :
    Held (s.setColor j c') q fs (.join d c i (.join d' c' j a b) far) := (held.down.recolor c').up

theorem top_apart {f : Frame Nat} (held : Held s q (f :: fs) t) (nonempty : t ≠ .nil) :
    t.top NIL ≠ f.sibling.top NIL := by
  intro same
  by_cases empty : f.sibling = .nil
  · rw [empty] at same
    exact held.focus.inner.top_ne nonempty same
  · have inside := RBTree.top_mem (o := NIL) nonempty
    have outside := RBTree.top_mem (o := NIL) empty
    rw [← same] at outside
    exact (List.nodup_append.mp held.focus.distinct).2.2 _ inside _ (by simp [cells, outside]) rfl

theorem parent_top {f : Frame Nat} (held : Held s q (f :: fs) t) (link : t = .nil → q = f.cell) :
    s.parent (t.top NIL) = f.cell := by
  by_cases empty : t = .nil
  · rw [empty, RBTree.top_nil, held.parent, link empty]
  · exact held.focus.inner.parent_top empty

theorem root_ne {f : Frame Nat} (held : Held s q (f :: fs) t) : t.top NIL ≠ s.root := by
  obtain ⟨member, real⟩ := held.focus.outer.root_mem
  by_cases empty : t = .nil
  · rw [empty]
    exact real.symm
  · intro same
    have inside := RBTree.top_mem (o := NIL) empty
    rw [same] at inside
    exact (List.nodup_append.mp held.focus.distinct).2.2 _ inside _ member rfl

theorem side {f : Frame Nat} (held : Held s q (f :: fs) t) (apart : t.top NIL ≠ f.sibling.top NIL) :
    (if t.top NIL = s.child .left f.cell then Dir.left else Dir.right) = f.dir := by
  obtain ⟨_, _, _, here, far, _, _⟩ := held.focus.outer
  cases side : f.dir with
  | left => rw [side] at here; rw [if_pos here.symm]
  | right =>
    rw [side] at far
    rw [if_neg]
    intro same
    exact apart (same.trans far)

end Held

end Titan.RBPriceIndex
