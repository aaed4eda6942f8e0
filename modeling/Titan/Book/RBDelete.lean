import Titan.Book.RBRotation

namespace Titan.RBPriceIndex

open RedBlack

variable {s : Store Nat} {q : Nat} {fs : List (Frame Nat)} {t : RBTree Nat} {d : Dir} {n : Nat}

/-- The focused subtree misses one black node: it is a black tree one level too low, or
    becomes high enough once its root is painted black. -/
def Short (t : RBTree Nat) (n : Nat) : Prop :=
  Balanced t .black n ∨ t.color = .red ∧ Balanced t.blacken .black (n + 1)

structure BlackSibling (s : Store Nat) (q : Nat) (t : RBTree Nat) (d : Dir) (p n : Nat) (inOrder : List Nat)
    (c : Color) (w : RBTree Nat) (fs : List (Frame Nat)) : Prop where
  held : Held s q (⟨d, c, p, w⟩ :: fs) t
  sibling : Balanced w .black (n + 1)
  outer : Fits (⟨d, c, p, w⟩ :: fs) .black (n + 1)
  same : (plug (⟨d, c, p, w⟩ :: fs) t).inorder = inOrder

theorem deleteRedSibling_spec {p : Nat} {c : Color} {w : RBTree Nat} (held : Held s q (⟨d, c, p, w⟩ :: fs) t)
    (link : t = .nil → q = p) (fits : Fits (⟨d, c, p, w⟩ :: fs) .black (n + 1)) :
    ∃ c' w' fs', BlackSibling (deleteRedSibling d s (t.top NIL) (w.top NIL)) q t d p n
      (plug (⟨d, c, p, w⟩ :: fs) t).inorder c' w' fs' ∧ (fs' = fs ∨ c' = .red) := by
  have colorW : s.color (w.top NIL) = w.color := held.focus.outer.2.2.2.2.2.1.color_top held.color
  have parentT := held.parent_top link
  cases fits with
  | red hw outer =>
    refine ⟨.red, w, fs, ⟨?_, hw, .red hw outer, rfl⟩, .inl rfl⟩
    simpa [deleteRedSibling, colorW, hw.color_eq] using held
  | @black _ _ _ _ _ c' _ hw outer =>
    cases c' with
    | black =>
      refine ⟨.black, w, fs, ⟨?_, hw, .black hw outer, rfl⟩, .inl rfl⟩
      simpa [deleteRedSibling, colorW, hw.color_eq] using held
    | red =>
      obtain ⟨i, a, b, rfl, ha, hb⟩ := hw.redParts d
      have turned := ((held.up.recolorFar .black).recolor .red).rotate.down.down
      refine ⟨.red, a, ⟨d, .black, i, b⟩ :: fs, ⟨?_, ha, .red ha (.black hb outer), ?_⟩, .inr rfl⟩
      · rw [RBTree.top_join, RBTree.color_join] at colorW
        simpa [deleteRedSibling, colorW, parentT] using turned
      · apply inorder_plug_congr fs
        rw [← RBTree.inorder_rotate]
        exact RBTree.inorder_join_congr _ _ _ _ rfl (RBTree.inorder_join_congr _ _ _ _ rfl rfl)

theorem deleteNearNephew_spec {p i : Nat} {c ca cb : Color} {a b : RBTree Nat}
    (held : Held s q (⟨d, c, p, .join d .black i a b⟩ :: fs) t)
    (ha : Balanced a ca n) (hb : Balanced b cb n) (someRed : ¬(ca = .black ∧ cb = .black)) :
    ∃ j a' b' ca', Held (deleteNearNephew d s i) q (⟨d, c, p, .join d .black j a' b'⟩ :: fs) t ∧
      Balanced a' ca' n ∧ Balanced b' .red n ∧
      (plug (⟨d, c, p, .join d .black j a' b'⟩ :: fs) t).inorder =
        (plug (⟨d, c, p, .join d .black i a b⟩ :: fs) t).inorder := by
  obtain ⟨_, _, _, nearI, farI, hA, hB⟩ := represents_join.mp held.focus.outer.2.2.2.2.2.1
  have colorB : s.color (s.child d.opp i) = cb := by rw [farI, hB.color_top held.color, hb.color_eq]
  cases cb with
  | red =>
    refine ⟨i, a, b, ca, ?_, ha, hb, rfl⟩
    simpa [deleteNearNephew, colorB] using held
  | black =>
    have redA : ca = .red := by cases ca <;> simp_all
    subst redA
    obtain ⟨j, y, x, rfl, hy, hx⟩ := ha.redParts d
    have across := held.up.downFar
    have painted : Held ((s.setColor j .black).setColor i .red) q (⟨d.opp, c, p, t⟩ :: fs)
        (.join d.opp .red i b (.join d.opp .black j x y)) := by
      rw [RBTree.join_opp, RBTree.join_opp]
      exact (across.recolorNear .black).recolor .red
    have turned := painted.rotate.up
    rw [RBTree.join_opp, RBTree.join_opp, RBTree.join_opp] at turned
    refine ⟨j, y, .join d .red i x b, .black, ?_, hy, hx.joinRed hb, ?_⟩
    · rw [RBTree.top_join] at nearI
      simpa [deleteNearNephew, colorB, nearI] using turned.down
    · apply inorder_plug_congr fs
      apply RBTree.inorder_join_congr _ _ _ _ rfl
      rw [RBTree.inorder_rotate]
      exact RBTree.inorder_join_congr _ _ _ _ (RBTree.inorder_join_congr _ _ _ _ rfl rfl) rfl

theorem deleteRotate_spec {p i : Nat} {c ca : Color} {a b : RBTree Nat}
    (held : Held s q (⟨d, c, p, .join d .black i a b⟩ :: fs) t) (link : t = .nil → q = p)
    (ht : Balanced t .black n) (ha : Balanced a ca n) (hb : Balanced b .red n)
    (fits : Fits (⟨d, c, p, .join d .black i a b⟩ :: fs) .black (n + 1)) :
    ∃ t' m, Held (deleteRotate d s (t.top NIL) i) q [] t' ∧ Balanced t' .black m ∧
      t'.inorder = (plug (⟨d, c, p, .join d .black i a b⟩ :: fs) t).inorder := by
  have parentT := held.parent_top link
  have colorP : s.color p = c := held.focus.outer.2.1
  obtain ⟨_, _, _, _, farI, _, _⟩ := represents_join.mp held.focus.outer.2.2.2.2.2.1
  obtain ⟨j, x, y, rfl, hx, hy⟩ := hb.redParts d
  rw [RBTree.top_join] at farI
  have painted : Held (((s.setColor i c).setColor p .black).setColor j .black) q fs
      (.join d .black p t (.join d c i a (.join d .black j x y))) :=
    (((held.up.recolorFar c).recolor .black).downFar.recolorFar .black).upFar
  have turned := painted.rotate
  have low : Balanced (.join d .black p t a) .black (n + 1) := ht.joinBlack ha
  have high : Balanced (.join d .black j x y) .black (n + 1) := hx.joinBlack hy
  have rebuilt : ∃ m, Balanced (plug fs (.join d c i (.join d .black p t a) (.join d .black j x y))) .black m := by
    cases fits with
    | red _ outer => exact outer.plug (low.joinRed high)
    | black _ outer => exact outer.plug (low.joinBlack high)
  obtain ⟨m, whole⟩ := rebuilt
  refine ⟨_, m, ⟨?_, ?_, ?_⟩, whole, ?_⟩
  · have focus := turned.focus.whole
    simpa only [deleteRotate, parentT, colorP, farI, Store.setColor_parent, Store.setColor_child] using focus
  · have color := turned.color
    simpa only [deleteRotate, parentT, colorP, farI, Store.setColor_parent, Store.setColor_child] using color
  · have parent := turned.parent
    simpa only [deleteRotate, parentT, colorP, farI, Store.setColor_parent, Store.setColor_child] using parent
  · apply inorder_plug_congr fs
    rw [← RBTree.inorder_rotate]
    apply RBTree.inorder_join_congr _ _ _ _ rfl
    exact RBTree.inorder_join_congr _ _ _ _ rfl (RBTree.inorder_join_congr _ _ _ _ rfl rfl)

/-- Where the deletion loop stops: painting the focused root black balances the tree. -/
def Settled (s : Store Nat) (q x : Nat) (inOrder : List Nat) : Prop :=
  ∃ fs t n, x = t.top NIL ∧ Held s q fs t ∧ Balanced t.blacken .black n ∧ Fits fs .black n ∧
    (plug fs t).inorder = inOrder

theorem deleteFixupLoop_root {fuel : Nat} {m : Nat} (held : Held s q [] t) (balanced : Balanced t .black m) :
    ∃ s' x, deleteFixupLoop (fuel + 1) s s.root = some (s', x) ∧ Settled s' q x t.inorder := by
  refine ⟨s, s.root, by simp [deleteFixupLoop], [], t, m, held.focus.outer, held, ?_, .root, rfl⟩
  rwa [RBTree.blacken_eq balanced.color_eq]

theorem deleteFixupLoop_spec (fuel : Nat) (held : Held s q fs t) (link : t = .nil → q = holder NIL fs)
    (short : Short t n) (fits : Fits fs .black (n + 1))
    (enough : fs.length + 2 ≤ fuel ∨ t.color = .red ∧ 1 ≤ fuel) :
    ∃ s' x, deleteFixupLoop fuel s (t.top NIL) = some (s', x) ∧ Settled s' q x (plug fs t).inorder := by
  induction fuel generalizing s fs t n with
  | zero => omega
  | succ fuel ih =>
    have colorT := held.focus.inner.color_top held.color
    rcases short with balanced | ⟨red, balanced⟩
    · cases fs with
      | nil =>
        have root : s.root = t.top NIL := held.focus.outer
        rw [← root]
        exact deleteFixupLoop_root held balanced
      | cons f fs =>
        obtain ⟨d, c, p, w⟩ := f
        have tall : w ≠ .nil := by
          rintro rfl
          cases fits with
          | red hw _ => cases hw
          | black hw _ => cases hw
        have apart : t.top NIL ≠ w.top NIL := by
          by_cases empty : t = .nil
          · rw [empty]
            exact (held.focus.outer.2.2.2.2.2.1.top_ne tall).symm
          · exact held.top_apart empty
        have black : s.color (t.top NIL) = .black := by rw [colorT, balanced.color_eq]
        have side := held.side apart
        have far : s.child d.opp p = w.top NIL := held.focus.outer.2.2.2.2.1
        obtain ⟨c', w', fs', ⟨held', hw, fits', same⟩, progress⟩ := deleteRedSibling_spec held link fits
        obtain ⟨i, a, b, ca, cb, rfl, ha, hb⟩ := hw.blackParts d
        have link' : t = .nil → q = p := link
        have parent' := held'.parent_top link'
        have far' : (deleteRedSibling d s (t.top NIL) (w.top NIL)).child d.opp p = i := by
          have := held'.focus.outer.2.2.2.2.1
          rwa [RBTree.top_join] at this
        rw [deleteFixupLoop, if_pos ⟨held.root_ne, black⟩]
        simp only [held.parent_top link, side, far, parent', far']
        generalize deleteRedSibling d s (t.top NIL) (w.top NIL) = s₁ at held' parent' far' ⊢
        obtain ⟨_, _, _, nearI, farI, hA, hB⟩ := represents_join.mp held'.focus.outer.2.2.2.2.2.1
        have colorA : s₁.color (s₁.child d i) = ca := by rw [nearI, hA.color_top held'.color, ha.color_eq]
        have colorB : s₁.color (s₁.child d.opp i) = cb := by rw [farI, hB.color_top held'.color, hb.color_eq]
        rw [colorA, colorB]
        by_cases nephews : ca = .black ∧ cb = .black
        · -- both nephews are black: the missing black node moves up to the parent
          obtain ⟨rfl, rfl⟩ := nephews
          rw [if_pos ⟨rfl, rfl⟩]
          have raised := held'.up.recolorFar .red
          have redSibling : Balanced (.join d .red i a b) .red n := ha.joinRed hb
          have below : (plug fs' (.join d c' p t (.join d .red i a b))).inorder =
              (plug (⟨d, c, p, w⟩ :: fs) t).inorder := by
            rw [← same]
            exact inorder_plug_congr fs' (RBTree.inorder_join_congr _ _ _ _ rfl (RBTree.inorder_join_congr _ _ _ _ rfl rfl))
          have nonempty : RBTree.join d c' p t (.join d .red i a b) ≠ .nil := by cases d <;> simp [RBTree.join]
          have continued : ∃ m, Short (.join d c' p t (.join d .red i a b)) m ∧ Fits fs' .black (m + 1) := by
            cases fits' with
            | red _ outer =>
              refine ⟨n, .inr ⟨RBTree.color_join .., ?_⟩, outer.to_black⟩
              rw [RBTree.blacken_join]
              exact balanced.joinBlack redSibling
            | black _ outer => exact ⟨n + 1, .inl (balanced.joinBlack redSibling), outer⟩
          obtain ⟨m, short', outer⟩ := continued
          have finished := ih raised (fun empty => absurd empty nonempty) short' outer (by
            simp only [List.length_cons, balanced.color_eq] at enough
            rcases progress with rfl | rfl
            · left; simpa using enough
            · right; exact ⟨RBTree.color_join .., by simp at enough; omega⟩)
          rwa [RBTree.top_join, below] at finished
        · rw [if_neg nephews]
          obtain ⟨j, a', b', ca', held₂, ha', hb', same₂⟩ := deleteNearNephew_spec held' ha hb nephews
          have fits₂ : Fits (⟨d, c', p, .join d .black j a' b'⟩ :: fs') .black (n + 1) := by
            cases fits' with
            | red _ outer => exact .red (ha'.joinBlack hb') outer
            | black _ outer => exact .black (ha'.joinBlack hb') outer
          have far₂ : (deleteNearNephew d s₁ i).child d.opp p = j := by
            have := held₂.focus.outer.2.2.2.2.1
            rwa [RBTree.top_join] at this
          have parent₂ := held₂.parent_top link'
          simp only [parent₂, far₂]
          obtain ⟨t', m, whole, balanced', same₃⟩ := deleteRotate_spec held₂ link' balanced ha' hb' fits₂
          obtain ⟨fuel, rfl⟩ : ∃ m, fuel = m + 1 :=
            ⟨fuel - 1, by simp only [List.length_cons, balanced.color_eq] at enough; simp at enough; omega⟩
          rw [← same, ← same₂, ← same₃]
          exact deleteFixupLoop_root whole balanced'
    · refine ⟨s, t.top NIL, ?_, fs, t, n + 1, rfl, held, balanced, fits, rfl⟩
      simp [deleteFixupLoop, colorT, red]

theorem deleteFixup_spec {fuel : Nat} (held : Held s q fs t) (link : t = .nil → q = holder NIL fs)
    (short : Short t n) (fits : Fits fs .black (n + 1)) (enough : fs.length + 2 ≤ fuel) :
    ∃ s' t' m, deleteFixup fuel s (t.top NIL) = some s' ∧ Held s' q [] t' ∧
      t'.inorder = (plug fs t).inorder ∧ Balanced t' .black m := by
  obtain ⟨s', x, result, fs', t', k, rfl, settled, balanced, outer, same⟩ :=
    deleteFixupLoop_spec fuel held link short fits (.inl enough)
  obtain ⟨m, whole⟩ := outer.plug balanced
  refine ⟨s'.setColor (t'.top NIL) .black, plug fs' t'.blacken, m, by simp [deleteFixup, result], ?_, ?_, whole⟩
  · cases t' with
    | nil =>
      have unchanged : s'.setColor NIL .black = s' := by
        unfold Store.setColor
        congr
        funext j
        split
        · rename_i same
          rw [same, settled.color]
        · rfl
      rw [RBTree.top_nil, unchanged]
      exact ⟨settled.focus.whole, settled.color, settled.parent⟩
    | node c l i r =>
      have painted := Held.recolor (d := .left) .black settled
      exact ⟨painted.focus.whole, painted.color, painted.parent⟩
  · rw [← same]
    exact inorder_plug_congr fs' (RBTree.inorder_blacken t')

end Titan.RBPriceIndex
