import Titan.Book.RBRotation

namespace Titan.RBPriceIndex

open RedBlack

variable {s : Store Nat} {q : Nat} {fs : List (Frame Nat)}

theorem Held.insertRotate {d : Dir} {p g : Nat} {t a u : RBTree Nat} (nonempty : t ≠ .nil)
    (held : Held s q fs (.join d .black g (.join d .red p t a) u)) :
    Held (insertRotate d s (t.top NIL)) q fs (.join d.opp .black p (.join d.opp .red g u a) t) := by
  have innerP := represents_join.mp (represents_join.mp held.focus.inner).2.2.2.2.2.1
  have parentT : s.parent (t.top NIL) = p := innerP.2.2.2.2.2.1.parent_top nonempty
  have parentP : s.parent p = g := innerP.2.2.1
  have recolored := (held.recolorNear .black).recolor .red
  have rotated : Held (RBPriceIndex.rotate d.opp ((s.setColor p .black).setColor g .red) g) q fs
      (.join d.opp .black p (.join d.opp .red g u a) t) := by
    apply Held.rotate
    rw [RBTree.join_opp, RBTree.join_opp]
    exact recolored
  simpa only [RBPriceIndex.insertRotate, Store.setColor_parent, parentT, parentP] using rotated

/-- What the repair loop leaves behind: the same cells in the same order, balanced once
    the root is painted black. -/
def Repaired (s : Store Nat) (q : Nat) (cellsInOrder : List Nat) : Prop :=
  ∃ t m, Held s q [] t ∧ t.inorder = cellsInOrder ∧ Balanced t.blacken .black m ∧ t ≠ .nil

theorem Held.repaired {t : RBTree Nat} {n : Nat} (held : Held s q fs t) (nonempty : t ≠ .nil)
    (balanced : Balanced t .black n) (fits : Fits fs .black n) : Repaired s q (plug fs t).inorder := by
  obtain ⟨m, whole⟩ := fits.plug balanced
  refine ⟨plug fs t, m, ⟨held.focus.whole, held.color, held.parent⟩, rfl, ?_, ?_⟩
  · rwa [RBTree.blacken_eq whole.color_eq]
  · intro empty
    have count := congrArg RBTree.inorder empty
    rw [inorder_plug] at count
    simp only [RBTree.inorder, List.append_eq_nil_iff] at count
    cases t with
    | nil => exact nonempty rfl
    | node c l i r => simp [RBTree.inorder] at count

theorem insertFixupLoop_exit {fuel z p : Nat} (parent : s.parent z = p) (black : s.color p = .black) :
    insertFixupLoop (fuel + 1) s z = some s := by
  simp [insertFixupLoop, parent, black]

theorem Held.insertBlackUncle {e : Dir} (fuel : Nat) {n p g : Nat} {t a u : RBTree Nat} (red : Balanced t .red n)
    (ha : Balanced a .black n) (hu : Balanced u .black n) (fits : Fits fs .black (n + 1))
    (held : Held s q fs (.join e .black g (.join e .red p t a) u)) :
    ∃ s', insertFixupLoop (fuel + 1) (RBPriceIndex.insertRotate e s (t.top NIL)) (t.top NIL) = some s' ∧
      Repaired s' q (plug fs (.join e .black g (.join e .red p t a) u)).inorder := by
  have nonempty : t ≠ .nil := by rintro rfl; cases red
  have turned := held.insertRotate nonempty
  obtain ⟨_, colorP, _, _, _, _, hT⟩ := represents_join.mp turned.focus.inner
  refine ⟨_, insertFixupLoop_exit (hT.parent_top nonempty) colorP, ?_⟩
  have same : (RBTree.join e .black g (.join e .red p t a) u).inorder =
      (RBTree.join e.opp .black p (.join e.opp .red g u a) t).inorder := by
    cases e <;> simp [RBTree.join, RBTree.inorder, Dir.opp]
  rw [inorder_plug_congr fs same]
  exact turned.repaired (by cases e <;> simp [RBTree.join, Dir.opp]) ((hu.joinRed ha).joinBlack red) fits

theorem insertFixupLoop_spec (fuel : Nat) {d₀ : Dir} {z n : Nat} {near far : RBTree Nat}
    (held : Held s q fs (.join d₀ .red z near far)) (balanced : Balanced (.join d₀ .red z near far) .red n)
    (fits : Fits fs .black n) (enough : fs.length + 2 ≤ fuel) :
    ∃ s', insertFixupLoop fuel s z = some s' ∧ Repaired s' q (plug fs (.join d₀ .red z near far)).inorder := by
  induction fuel generalizing s fs d₀ z near far n with
  | zero => omega
  | succ fuel ih =>
    have parentZ : s.parent z = holder NIL fs := (represents_join.mp held.focus.inner).2.2.1
    have nonempty : RBTree.join d₀ .red z near far ≠ .nil := by cases d₀ <;> simp [RBTree.join]
    cases fits with
    | root =>
      exact ⟨s, insertFixupLoop_exit parentZ held.color, _, _, held, rfl, balanced.blacken, nonempty⟩
    | @black d p b gs _ c' _ hb outer =>
      refine ⟨s, insertFixupLoop_exit parentZ held.focus.outer.2.1, ?_⟩
      exact held.up.repaired (by cases d <;> simp [RBTree.join]) (balanced.joinBlack hb) outer
    | @red d p b gs _ hb outer =>
      cases outer with
      | @black e g u hs _ c' _ hu outer =>
      have colorP : s.color p = .red := held.focus.outer.2.1
      have parentP : s.parent p = g := held.focus.outer.2.2.1
      obtain ⟨_, _, _, hereP, farP, _, ⟨_, _, _, _, farG, hU, _⟩⟩ := held.focus.outer
      rw [RBTree.top_join] at hereP
      have raised := held.up
      have side := raised.side (raised.top_apart (by cases d <;> simp [RBTree.join]))
      have uncle : s.color (s.child e.opp g) = c' := by
        rw [farG, hU.color_top held.color, hu.color_eq]
      rw [RBTree.top_join] at side
      simp only [insertFixupLoop, parentZ, holder, colorP, parentP, side, uncle, if_true]
      cases c' with
      | red =>
        obtain ⟨i, a, a', rfl, hn, hf⟩ := hu.redParts e
        rw [farG, RBTree.top_join, if_pos rfl]
        have painted := (((raised.recolor .black).up).recolorFar .black).recolor .red
        have lifted : Balanced (.join e .red g (.join d .black p (.join d₀ .red z near far) b)
            (.join e .black i a a')) .red (n + 1) := (balanced.joinBlack hb).joinRed (hn.joinBlack hf)
        obtain ⟨s', result, repaired⟩ := ih painted lifted outer (by simp only [List.length_cons] at enough; omega)
        refine ⟨s', result, ?_⟩
        have same : (plug hs (.join e .red g (.join d .black p (.join d₀ .red z near far) b)
            (.join e .black i a a'))).inorder = (plug hs (.join e .black g
              (.join d .red p (.join d₀ .red z near far) b) (.join e .red i a a'))).inorder :=
          inorder_plug_congr hs (RBTree.inorder_join_congr _ _ _ _ (RBTree.inorder_join_congr _ _ _ _ rfl rfl)
            (RBTree.inorder_join_congr _ _ _ _ rfl rfl))
        exact same ▸ repaired
      | black =>
        rw [if_neg (by simp)]
        obtain ⟨fuel, rfl⟩ : ∃ m, fuel = m + 1 := ⟨fuel - 1, by simp only [List.length_cons] at enough; omega⟩
        rcases Dir.eq_or_opp e d with rfl | rfl
        · -- an outer grandchild: rotate the grandparent only
          have outside := held.top_apart nonempty
          rw [RBTree.top_join] at outside
          rw [if_neg (by rw [farP]; exact outside)]
          have finished := raised.up.insertBlackUncle fuel balanced hb hu outer
          rwa [RBTree.top_join] at finished
        · -- an inner grandchild: rotate it above its parent first
          rw [if_pos hereP.symm]
          obtain ⟨i, x, y, form, hx, hy⟩ := balanced.redParts e
          have top : i = z := by simpa using (congrArg (RBTree.top NIL) form).symm
          subst top
          rw [form, RBTree.join_opp] at raised
          have turned := (raised.rotate.up).insertBlackUncle fuel (hb.joinRed hx) hy hu outer
          rw [RBTree.top_join] at turned
          obtain ⟨s', result, repaired⟩ := turned
          refine ⟨s', result, ?_⟩
          have same : (plug hs (.join e .black g (.join e .red i (.join e .red p b x) y) u)).inorder =
              (plug hs (.join e .black g (.join e.opp .red p (.join d₀ .red i near far) b) u)).inorder := by
            apply inorder_plug_congr hs
            apply RBTree.inorder_join_congr _ _ _ _ _ rfl
            rw [form, RBTree.join_opp, RBTree.inorder_rotate]
          exact same ▸ repaired

theorem insertFixup_spec {fuel z n : Nat} {d₀ : Dir} {near far : RBTree Nat}
    (held : Held s q fs (.join d₀ .red z near far)) (balanced : Balanced (.join d₀ .red z near far) .red n)
    (fits : Fits fs .black n) (enough : fs.length + 2 ≤ fuel) :
    ∃ s' t m, insertFixup fuel s z = some s' ∧ Held s' q [] t ∧
      t.inorder = (plug fs (.join d₀ .red z near far)).inorder ∧ Balanced t .black m := by
  obtain ⟨s', result, t, m, whole, same, black, nonempty⟩ :=
    insertFixupLoop_spec fuel held balanced fits enough
  cases t with
  | nil => exact absurd rfl nonempty
  | node c l i r =>
    have root : s'.root = i := whole.focus.outer
    refine ⟨s'.setColor i .black, .node .black l i r, m, by simp [insertFixup, result, root], ?_, same, black⟩
    exact Held.recolor (d := .left) .black whole

end Titan.RBPriceIndex
