import Titan.Book.RBDelete

namespace Titan.RBPriceIndex

open RedBlack

variable {s : Store Nat} {q : Nat} {fs : List (Frame Nat)}

theorem transplant_spec {d : Dir} {c : Color} {z : Nat} {t : RBTree Nat} (held : Held s q fs (.join d c z .nil t)) :
    ∃ q', Held (transplant s z (t.top NIL)) q' fs t ∧ (t = .nil → q' = holder NIL fs) := by
  obtain ⟨⟨outer, inner, distinct⟩, black, sentinel⟩ := held
  obtain ⟨real, color, parent, near, far, _, ht⟩ := represents_join.mp inner
  rw [RBTree.top_join] at outer
  have apart := ((RBTree.inorder_join_perm d c z .nil t).append_right (cells fs)).nodup_iff.mp distinct
  simp only [RBTree.inorder, List.nil_append, List.cons_append, List.nodup_cons, List.mem_append, not_or] at apart
  obtain ⟨⟨_, freshZ⟩, distinct⟩ := apart
  obtain ⟨nodupT, nodupFs, disjoint⟩ := List.nodup_append.mp distinct
  have replaced : transplant s z (t.top NIL) = (s.setHole fs (t.top NIL)).setParent (t.top NIL) (holder NIL fs) := by
    simp only [transplant, replaceChild_eq outer real parent freshZ, Store.setHole_parent, parent]
  have freshTop : t.top NIL ∉ cells fs := by
    by_cases empty : t = .nil
    · rw [empty]
      exact outer.sentinel_not_mem
    · exact fun member => disjoint _ (RBTree.top_mem empty) _ member rfl
  have moved : Represents (transplant s z (t.top NIL)) NIL (holder NIL fs) t := by
    rw [replaced]
    exact (ht.setHole (fun j member inside => disjoint j member j inside rfl)).moveTo nodupT
  refine ⟨(transplant s z (t.top NIL)).parent NIL, ⟨⟨?_, moved, distinct⟩, ?_, rfl⟩, ?_⟩
  · rw [replaced]
    exact (outer.setHole nodupFs).setParent freshTop
  · rw [replaced]
    simpa using black
  · rintro rfl
    rw [replaced]
    simp

/-- The cell `y` with its right subtree `r` stands ready to take the place of `z`. -/
structure Detached (s : Store Nat) (q : Nat) (fs : List (Frame Nat)) (c : Color) (l r : RBTree Nat) (z y : Nat) :
    Prop where
  outer : Surrounds s NIL fs z
  realZ : z ≠ NIL
  realY : y ≠ NIL
  colorZ : s.color z = c
  parentZ : s.parent z = holder NIL fs
  leftZ : s.child .left z = l.top NIL
  left : Represents s NIL z l
  rightY : s.child .right y = r.top NIL
  right : Represents s NIL y r
  distinct : (y :: z :: (l.inorder ++ (r.inorder ++ cells fs))).Nodup
  black : s.color NIL = .black
  sentinel : s.parent NIL = q

/-- The second half of the two-child case of `graft`. -/
def takeOver (s : Store Nat) (z y : Nat) : Store Nat :=
  let s := transplant s z y
  let s := s.setChild .left y (s.child .left z)
  let s := s.setParent (s.child .left y) y
  s.setColor y (s.color z)

theorem takeOver_spec {c : Color} {l r : RBTree Nat} {z y : Nat} (detached : Detached s q fs c l r z y)
    (nonempty : l ≠ .nil) : Held (takeOver s z y) q fs (.node c l y r) := by
  obtain ⟨outer, realZ, realY, colorZ, parentZ, leftZ, left, rightY, right, distinct, black, sentinel⟩ := detached
  simp only [List.nodup_cons, List.mem_cons, List.mem_append, not_or, List.nodup_append] at distinct
  obtain ⟨⟨neYZ, yl, yr, yo⟩, ⟨zl, zr, zo⟩, nodupL, ⟨nodupR, nodupO, rApart⟩, lApart⟩ := distinct
  have topL : l.top NIL ∈ l.inorder := RBTree.top_mem nonempty
  have topO : l.top NIL ∉ cells fs := fun member => lApart _ topL _ (.inr member) rfl
  have topR : l.top NIL ∉ r.inorder := fun member => lApart _ topL _ (.inl member) rfl
  have topY : l.top NIL ≠ y := fun same => yl (same ▸ topL)
  have taken : takeOver s z y = ((((s.setHole fs y).setParent y (holder NIL fs)).setChild .left y
      (l.top NIL)).setParent (l.top NIL) y).setColor y c := by
    simp only [takeOver, transplant, replaceChild_eq outer realZ parentZ zo, Store.setHole_parent, parentZ,
      Store.setParent_child, Store.setChild_child, and_self, if_true, Store.setHole_child _ _ _ zo, leftZ,
      Store.setParent_color, Store.setChild_color, Store.setHole_color, colorZ]
  rw [taken]
  refine ⟨⟨?_, ⟨realY, ?_, ?_, ?_, ?_, ?_, ?_⟩, ?_⟩, ?_, ?_⟩
  · exact ((((outer.setHole nodupO).setParent yo).setChild yo).setParent topO).setColor yo
  · simp
  · simp [Ne.symm topY]
  · simp
  · simpa [Store.setHole_child _ _ _ yo] using rightY
  · exact ((((left.setHole (fun j member inside => lApart j member j (.inr inside) rfl)).setParent yl).setChild
      yl).moveTo nodupL).setColor yl
  · exact ((((right.setHole (fun j member inside => rApart j member j inside rfl)).setParent yr).setChild
      yr).setParent topR).setColor yr
  · have sorted : ((RBTree.node c l y r).inorder ++ cells fs).Perm (y :: (l.inorder ++ (r.inorder ++ cells fs))) := by
      simp only [RBTree.inorder, List.append_assoc, List.cons_append]
      exact List.perm_middle
    refine sorted.nodup_iff.mpr ?_
    simp only [List.nodup_cons, List.mem_append, not_or, List.nodup_append]
    exact ⟨⟨yl, yr, yo⟩, nodupL, ⟨nodupR, nodupO, rApart⟩, fun a ha b hb => lApart a ha b (by simpa using hb)⟩
  · simpa [realY.symm] using black
  · simpa [realY.symm, (left.top_ne nonempty).symm] using sentinel

def cutOut (s : Store Nat) (z y : Nat) : Store Nat :=
  if s.parent y = z then s.setParent (s.child .right y) y
  else
    let s' := transplant s y (s.child .right y)
    let s' := s'.setChild .right y (s'.child .right z)
    s'.setParent (s'.child .right y) y

theorem cutOut_distinct {c cy : Color} {l ry : RBTree Nat} {z y : Nat} {gs : List (Frame Nat)}
    (distinct : ((RBTree.node c l z (plug gs (.node cy .nil y ry))).inorder ++ cells fs).Nodup) :
    (y :: z :: (l.inorder ++ ((plug gs ry).inorder ++ cells fs))).Nodup := by
  have inner : (plug gs (.node cy .nil y ry)).inorder.Perm (y :: (plug gs ry).inorder) :=
    (inorder_plug_perm _ _).trans ((inorder_plug_perm gs ry).symm.cons y)
  have whole : (RBTree.node c l z (plug gs (.node cy .nil y ry))).inorder.Perm
      (z :: (l.inorder ++ y :: (plug gs ry).inorder)) :=
    List.perm_middle.trans ((inner.append_left _).cons z)
  have sorted := (whole.trans ((List.perm_middle.cons z).trans (List.Perm.swap y z _))).append_right (cells fs)
  simpa only [List.cons_append, List.append_assoc] using sorted.nodup_iff.mp distinct

theorem cutOut_spec {c cy : Color} {l ry : RBTree Nat} {z y : Nat} {gs : List (Frame Nat)}
    (held : Held s q fs (.node c l z (plug gs (.node cy .nil y ry)))) :
    ∃ q', Detached (cutOut s z y) q' fs c l (plug gs ry) z y ∧
      (ry = .nil → q' = holder NIL (gs ++ [⟨.right, c, y, l⟩])) := by
  have distinct := cutOut_distinct held.focus.distinct
  have fresh := distinct
  simp only [List.nodup_cons, List.mem_cons, List.mem_append, not_or, List.nodup_append] at fresh
  obtain ⟨⟨neYZ, yl, yr, yo⟩, ⟨zl, zr, zo⟩, _, ⟨nodupR, _, rApart⟩, lApart⟩ := fresh
  have below : Held s q (⟨.right, c, z, l⟩ :: fs) (plug gs (.node cy .nil y ry)) :=
    Held.down (d := .right) held
  have atY : Held s q (gs ++ ⟨.right, c, z, l⟩ :: fs) (.node cy .nil y ry) :=
    ⟨below.focus.lower, below.color, below.parent⟩
  have realY : y ≠ NIL := atY.focus.inner.1
  have parentY : s.parent y = holder NIL (gs ++ ⟨.right, c, z, l⟩ :: fs) := atY.focus.inner.2.2.1
  have rightY : s.child .right y = ry.top NIL := atY.focus.inner.2.2.2.2.1
  cases gs with
  | nil =>
    obtain ⟨realZ, colorZ, parentZ, _, leftZ, left, outer⟩ := below.focus.outer
    have right : Represents s NIL y ry := atY.focus.inner.2.2.2.2.2.2
    have topApart (j : Nat) (inTree : ry ≠ .nil → j ∉ ry.inorder) (real : j ≠ NIL) : ry.top NIL ≠ j := by
      rintro rfl
      by_cases empty : ry = .nil
      · exact real (by rw [empty]; rfl)
      · exact inTree empty (RBTree.top_mem empty)
    have topFresh : ry.top NIL ∉ cells fs := fun member =>
      topApart _ (fun _ inside => rApart _ inside _ member rfl)
        (fun same => outer.sentinel_not_mem (same ▸ member)) rfl
    have topLeft : ry.top NIL ∉ l.inorder := fun member =>
      topApart _ (fun _ inside => lApart _ member _ (.inl inside) rfl)
        (fun same => left.sentinel_not_mem (same ▸ member)) rfl
    have topZ : z ≠ ry.top NIL := (topApart z (fun _ => zr) realZ).symm
    have cut : cutOut s z y = s.setParent (ry.top NIL) y := by simp [cutOut, parentY, rightY, holder]
    rw [cut]
    refine ⟨(s.setParent (ry.top NIL) y).parent NIL, ⟨outer.setParent topFresh, realZ, realY, colorZ, ?_,
      leftZ, left.setParent topLeft, rightY, right.moveTo nodupR, distinct, held.color, rfl⟩, ?_⟩
    · simpa [topZ] using parentZ
    · rintro rfl
      simp [holder]
  | cons g gs =>
    have elsewhere : s.parent y ≠ z := by
      rw [parentY]
      intro same
      have member : g.cell ∈ (plug (g :: gs) ry).inorder :=
        (inorder_plug_perm _ _).mem_iff.mpr (by simp [cells])
      exact zr (same ▸ member)
    obtain ⟨q', moved, link⟩ := transplant_spec (d := .left) atY
    have raised : Held _ q' (⟨.right, c, z, l⟩ :: fs) (plug (g :: gs) ry) :=
      ⟨moved.focus.raise, moved.color, moved.parent⟩
    obtain ⟨realZ, colorZ, parentZ, rightZ, leftZ, left, outer⟩ := raised.focus.outer
    have right := raised.focus.inner
    have nonempty : plug (g :: gs) ry ≠ .nil := plug_ne_nil (by simp)
    have topMem := RBTree.top_mem (o := NIL) nonempty
    have cut : cutOut s z y = ((transplant s y (ry.top NIL)).setChild .right y
        ((plug (g :: gs) ry).top NIL)).setParent ((plug (g :: gs) ry).top NIL) y := by
      rw [cutOut, if_neg elsewhere, rightY]
      simp only [rightZ, Store.setChild_child, and_self, if_true]
    rw [cut]
    refine ⟨q', ⟨?_, realZ, realY, colorZ, ?_, ?_, ?_, ?_, ?_, distinct, moved.color, ?_⟩, link⟩
    · exact (outer.setChild yo).setParent (fun member => rApart _ topMem _ member rfl)
    · have apart : z ≠ (plug (g :: gs) ry).top NIL := fun same => zr (same ▸ topMem)
      simpa [apart] using parentZ
    · simpa [Ne.symm neYZ, Dir.opp] using leftZ
    · exact (left.setChild yl).setParent (fun member => lApart _ member _ (.inl topMem) rfl)
    · simp
    · exact (right.setChild yr).moveTo nodupR
    · have realTop := right.top_ne nonempty
      simpa [realTop.symm] using moved.parent

def Deficit (lost : Color) (fs : List (Frame Nat)) (t : RBTree Nat) : Prop :=
  match lost with
  | .red => ∃ n, Balanced t .black n ∧ Fits fs .black n
  | .black => ∃ n, Short t n ∧ Fits fs .black (n + 1)

theorem Balanced.short {t : RBTree Nat} {c : Color} {n : Nat} (balanced : Balanced t c n) : Short t n := by
  cases c with
  | black => exact .inl balanced
  | red => exact .inr ⟨balanced.color_eq, balanced.blacken⟩

theorem deficit_of_join {d : Dir} {c₀ c : Color} {z n : Nat} {t : RBTree Nat}
    (balanced : Balanced (.join d c₀ z .nil t) c n) (fits : Fits fs c n) : Deficit c₀ fs t := by
  rcases balanced.of_join with ⟨rfl, rfl, _, ht⟩ | ⟨rfl, rfl, _, c₂, m, rfl, _, ht⟩
  · exact ⟨n, ht, fits.to_black⟩
  · exact ⟨m, Balanced.short ht, fits⟩

theorem graft_eq_two {z y : Nat} (left : s.child .left z ≠ NIL) (right : s.child .right z ≠ NIL) :
    graft s z y = (takeOver (cutOut s z y) z y, s.child .right y, s.color y) := by
  rw [graft, if_neg left, if_neg right]
  rfl

theorem graft_spec {c : Color} {l r : RBTree Nat} {z y m : Nat} (held : Held s q fs (.node c l z r))
    (balanced : Balanced (plug fs (.node c l z r)) .black m)
    (next : l ≠ .nil → r ≠ .nil → r.inorder.head? = some y) :
    ∃ s' q' gs t lost, graft s z y = (s', t.top NIL, lost) ∧ Held s' q' gs t ∧
      (t = .nil → q' = holder NIL gs) ∧ Deficit lost gs t ∧
      (plug gs t).inorder = before fs ++ (l.inorder ++ r.inorder) ++ after fs := by
  obtain ⟨_, colorZ, _, leftZ, rightZ, hl, hr⟩ := held.focus.inner
  obtain ⟨c', n, inner, fits⟩ := balanced.unplug
  by_cases emptyL : l = .nil
  · subst emptyL
    obtain ⟨q', moved, link⟩ := transplant_spec (d := .left) held
    refine ⟨_, q', fs, r, c, ?_, moved, link, deficit_of_join (d := .left) inner fits, by simp [inorder_plug, RBTree.inorder]⟩
    rw [RBTree.top_nil] at leftZ
    rw [graft, if_pos leftZ, rightZ, colorZ]
  · have realL : s.child .left z ≠ NIL := by rw [leftZ]; exact hl.top_ne emptyL
    by_cases emptyR : r = .nil
    · subst emptyR
      obtain ⟨q', moved, link⟩ := transplant_spec (d := .right) held
      refine ⟨_, q', fs, l, c, ?_, moved, link, deficit_of_join (d := .right) inner fits, by simp [inorder_plug, RBTree.inorder]⟩
      rw [RBTree.top_nil] at rightZ
      rw [graft, if_neg realL, if_pos rightZ, leftZ, colorZ]
    · have realR : s.child .right z ≠ NIL := by rw [rightZ]; exact hr.top_ne emptyR
      obtain ⟨gs, cy, i, ry, rfl, first⟩ := exists_leftmost emptyR
      have head := next emptyL emptyR
      simp only [inorder_plug, first, RBTree.inorder, List.nil_append, List.cons_append, List.head?_cons,
        Option.some.injEq] at head
      subst head
      obtain ⟨q', detached, link⟩ := cutOut_spec held
      have taken := takeOver_spec detached emptyL
      have below : Held s q (gs ++ ⟨.right, c, z, l⟩ :: fs) (.node cy .nil i ry) := by
        have down := Held.down (d := .right) held
        exact ⟨down.focus.lower, down.color, down.parent⟩
      have deficit : Deficit cy (gs ++ ⟨.right, c, i, l⟩ :: fs) ry := by
        have split : plug fs (.node c l z (plug gs (.node cy .nil i ry))) =
            plug (gs ++ ⟨.right, c, z, l⟩ :: fs) (.node cy .nil i ry) := by
          rw [plug_append]
          rfl
        rw [split] at balanced
        obtain ⟨c₁, n₁, innerY, fitsY⟩ := balanced.unplug
        exact deficit_of_join (d := .left) innerY fitsY.rename
      obtain ⟨_, colorY, _, _, rightY, _, _⟩ := below.focus.inner
      refine ⟨takeOver (cutOut s z i) z i, q', gs ++ ⟨.right, c, i, l⟩ :: fs, ry, cy, ?_, ?_, ?_, deficit, ?_⟩
      · rw [graft_eq_two realL realR, rightY, colorY]
      · have down := Held.down (d := .right) taken
        exact ⟨down.focus.lower, down.color, down.parent⟩
      · intro empty
        rw [link empty]
        cases gs <;> rfl
      · rw [plug_append, inorder_plug (_ :: fs)]
        simp [before, after, inorder_plug, first, RBTree.inorder]

/-- The whole removal of a cell from the tree, repair included. -/
theorem removal_spec {c : Color} {l r : RBTree Nat} {z y m fuel : Nat} (held : Held s q fs (.node c l z r))
    (balanced : Balanced (plug fs (.node c l z r)) .black m)
    (next : l ≠ .nil → r ≠ .nil → r.inorder.head? = some y)
    (enough : (plug fs (.node c l z r)).size + 1 ≤ fuel) :
    ∃ s' x lost s'' t m', graft s z y = (s', x, lost) ∧
      (if lost = .black then deleteFixup fuel s' x else some s') = some s'' ∧
      Focus s'' NIL [] t ∧ s''.color NIL = .black ∧ Balanced t .black m' ∧
      t.inorder = before fs ++ (l.inorder ++ r.inorder) ++ after fs := by
  obtain ⟨s', q', gs, t, lost, result, moved, link, deficit, same⟩ := graft_spec held balanced next
  have count : gs.length + 2 ≤ fuel := by
    have long := length_le_cells gs
    have total := (inorder_plug_perm gs t).length_eq
    have whole := congrArg List.length (inorder_plug fs (.node c l z r))
    rw [same] at total
    rw [RBTree.inorder_length] at whole
    simp only [RBTree.inorder, List.length_append, List.length_cons] at total whole
    omega
  cases lost with
  | red =>
    obtain ⟨n, ht, fits⟩ := deficit
    obtain ⟨m', whole⟩ := fits.plug ht
    exact ⟨s', _, .red, s', plug gs t, m', result, by simp, moved.focus.whole, moved.color, whole, same⟩
  | black =>
    obtain ⟨n, short, fits⟩ := deficit
    obtain ⟨s'', t', m', fixed, whole, order, balanced'⟩ := deleteFixup_spec moved link short fits count
    exact ⟨s', _, .black, s'', t', m', result, by simpa using fixed, whole.focus, whole.color, balanced',
      order.trans same⟩

end Titan.RBPriceIndex
