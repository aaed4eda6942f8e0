import Mathlib.Data.List.Nodup
import Mathlib.Logic.Function.Basic

namespace Linked

variable {ι : Type} {nxt prv nxt' prv' : ι → ι} {p p' n n' o : ι} {l l₁ l₂ : List ι}

/-- The cells of the list are threaded by `nxt` and `prv`; the first one points
    back to the entry and the last one on to the exit. -/
def Segment (nxt prv : ι → ι) : ι → List ι → ι → Prop
  | _, [], _ => True
  | p, i :: l, n => prv i = p ∧ nxt i = l.headD n ∧ Segment nxt prv i l n

/-- Following `nxt` from a cell visits exactly the listed cells and then reaches `o`. -/
def Walk (nxt : ι → ι) (o : ι) : ι → List ι → Prop
  | i, [] => i = o
  | i, j :: l => i = j ∧ j ≠ o ∧ Walk nxt o (nxt j) l

theorem headD_append (l₁ l₂ : List ι) (n : ι) :
    (l₁ ++ l₂).headD n = l₁.headD (l₂.headD n) := by
  cases l₁ <;> simp

theorem getLastD_append (l₁ l₂ : List ι) (p : ι) :
    (l₁ ++ l₂).getLastD p = l₂.getLastD (l₁.getLastD p) := by
  induction l₁ generalizing p with
  | nil => simp
  | cons i l ih => rw [List.cons_append, List.getLastD_cons, List.getLastD_cons, ih]

theorem headD_mem (n : ι) (nonempty : l ≠ []) : l.headD n ∈ l := by
  cases l with
  | nil => exact absurd rfl nonempty
  | cons i l => simp

theorem getLastD_mem (p : ι) (nonempty : l ≠ []) : l.getLastD p ∈ l := by
  rw [List.getLastD_eq_getLast?, List.getLast?_eq_getLast_of_ne_nil nonempty]
  exact List.getLast_mem nonempty

theorem getLastD_of_getLast? {i : ι} (o : ι) (last : l.getLast? = some i) : l.getLastD o = i := by
  rw [List.getLastD_eq_getLast?, last, Option.getD_some]

theorem headD_of_head? {i : ι} (o : ι) (first : l.head? = some i) : l.headD o = i := by
  rw [List.headD_eq_head?_getD, first, Option.getD_some]

theorem getLastD_ne {j : ι} (o : ι) (member : j ≠ o) (notLast : l.getLast? ≠ some j) : j ≠ l.getLastD o := by
  rw [List.getLastD_eq_getLast?]
  cases last : l.getLast? with
  | none => simpa using member
  | some k =>
    rintro rfl
    exact notLast last

theorem headD_ne {j : ι} (o : ι) (member : j ≠ o) (notFirst : l.head? ≠ some j) : j ≠ l.headD o := by
  rw [List.headD_eq_head?_getD]
  cases first : l.head? with
  | none => simpa using member
  | some k =>
    rintro rfl
    exact notFirst first

theorem segment_append :
    Segment nxt prv p (l₁ ++ l₂) n ↔
      Segment nxt prv p l₁ (l₂.headD n) ∧ Segment nxt prv (l₁.getLastD p) l₂ n := by
  induction l₁ generalizing p with
  | nil => simp [Segment]
  | cons i l ih =>
    simp only [List.cons_append, Segment, ih, headD_append, List.getLastD_cons]
    tauto

theorem Segment.congr (segment : Segment nxt prv p l n)
    (sameNext : ∀ i ∈ l, nxt' i = nxt i) (samePrev : ∀ i ∈ l, prv' i = prv i) :
    Segment nxt' prv' p l n := by
  induction l generalizing p with
  | nil => trivial
  | cons i l ih =>
    obtain ⟨back, forward, rest⟩ := segment
    refine ⟨(samePrev i (by simp)).trans back, (sameNext i (by simp)).trans forward, ?_⟩
    exact ih rest (fun j member => sameNext j (by simp [member])) (fun j member => samePrev j (by simp [member]))

theorem Segment.exit (segment : Segment nxt prv p l n) (distinct : l.Nodup)
    (samePrev : ∀ i ∈ l, prv' i = prv i)
    (sameNext : ∀ i ∈ l, l.getLast? ≠ some i → nxt' i = nxt i)
    (redirected : ∀ i, l.getLast? = some i → nxt' i = n') : Segment nxt' prv' p l n' := by
  induction l generalizing p with
  | nil => trivial
  | cons i l ih =>
    obtain ⟨back, forward, rest⟩ := segment
    obtain ⟨fresh, distinct⟩ := List.nodup_cons.mp distinct
    cases l with
    | nil => exact ⟨(samePrev i (by simp)).trans back, redirected i (by simp), trivial⟩
    | cons j l =>
      have notLast : (i :: j :: l).getLast? ≠ some i := by
        rw [List.getLast?_cons_cons]
        intro last
        exact fresh (List.mem_of_getLast? last)
      refine ⟨(samePrev i (by simp)).trans back, (sameNext i (by simp) notLast).trans forward, ?_⟩
      apply ih rest distinct (fun k member => samePrev k (List.mem_cons_of_mem _ member))
      · intro k member other
        exact sameNext k (List.mem_cons_of_mem _ member) (by rwa [List.getLast?_cons_cons])
      · intro k last
        exact redirected k (by rwa [List.getLast?_cons_cons])

theorem Segment.entry (segment : Segment nxt prv p l n) (distinct : l.Nodup)
    (sameNext : ∀ i ∈ l, nxt' i = nxt i)
    (samePrev : ∀ i ∈ l, l.head? ≠ some i → prv' i = prv i)
    (redirected : ∀ i, l.head? = some i → prv' i = p') : Segment nxt' prv' p' l n := by
  cases l with
  | nil => trivial
  | cons i l =>
    obtain ⟨_, forward, rest⟩ := segment
    obtain ⟨fresh, _⟩ := List.nodup_cons.mp distinct
    refine ⟨redirected i rfl, (sameNext i (by simp)).trans forward, ?_⟩
    apply rest.congr (fun k member => sameNext k (by simp [member]))
    intro k member
    apply samePrev k (by simp [member])
    simp only [List.head?_cons, ne_eq, Option.some.injEq]
    rintro rfl
    exact fresh member

theorem Segment.reverse (segment : Segment nxt prv p l n) : Segment prv nxt n l.reverse p := by
  induction l generalizing p with
  | nil => trivial
  | cons i l ih =>
    obtain ⟨back, forward, rest⟩ := segment
    rw [List.reverse_cons, segment_append]
    refine ⟨by simpa using ih rest, ?_, back, trivial⟩
    rw [forward]
    cases l with
    | nil => rfl
    | cons j l => simp

theorem Segment.walk (segment : Segment nxt prv p l o) (inside : o ∉ l) :
    Walk nxt o (l.headD o) l := by
  induction l generalizing p with
  | nil => rfl
  | cons i l ih =>
    obtain ⟨_, forward, rest⟩ := segment
    have apart : o ≠ i ∧ o ∉ l := by simpa using inside
    refine ⟨rfl, apart.1.symm, ?_⟩
    rw [forward]
    exact ih rest apart.2

theorem Segment.walk_back (segment : Segment nxt prv o l n) (inside : o ∉ l) :
    Walk prv o (l.getLastD o) l.reverse := by
  have walked := segment.reverse.walk (by simpa using inside)
  rwa [List.headD_eq_head?_getD, List.head?_reverse, ← List.getLastD_eq_getLast?] at walked

theorem Walk.unique {i : ι} (first : Walk nxt o i l₁) (second : Walk nxt o i l₂) : l₁ = l₂ := by
  induction l₁ generalizing i l₂ with
  | nil =>
    cases l₂ with
    | nil => rfl
    | cons j l => exact absurd (second.1.symm.trans first) second.2.1
  | cons k l ih =>
    cases l₂ with
    | nil => exact absurd (first.1.symm.trans second) first.2.1
    | cons j l' =>
      obtain ⟨rfl, _, first⟩ := first
      obtain ⟨rfl, _, second⟩ := second
      rw [ih first second]

def trace [DecidableEq ι] (nxt : ι → ι) (o : ι) : Nat → ι → List ι
  | 0, _ => []
  | fuel + 1, i => if i = o then [] else i :: trace nxt o fuel (nxt i)

theorem Walk.trace_eq [DecidableEq ι] {i : ι} {fuel : Nat} (walk : Walk nxt o i l) (enough : l.length ≤ fuel) :
    trace nxt o fuel i = l := by
  induction l generalizing i fuel with
  | nil =>
    cases fuel with
    | zero => rfl
    | succ fuel => exact if_pos walk
  | cons j l ih =>
    rcases walk with ⟨rfl, inside, rest⟩
    cases fuel with
    | zero => exact absurd enough (Nat.not_succ_le_zero _)
    | succ fuel => rw [trace, if_neg inside, ih rest (Nat.le_of_succ_le_succ enough)]

theorem Segment.rejoin {a b a' b' : ι} (left : Segment nxt prv p l₁ a) (right : Segment nxt prv b l₂ n)
    (distinct : (l₁ ++ l₂).Nodup)
    (sameNext : ∀ j ∈ l₁ ++ l₂, l₁.getLast? ≠ some j → nxt' j = nxt j)
    (samePrev : ∀ j ∈ l₁ ++ l₂, l₂.head? ≠ some j → prv' j = prv j)
    (linkNext : ∀ j, l₁.getLast? = some j → nxt' j = a')
    (linkPrev : ∀ j, l₂.head? = some j → prv' j = b') :
    Segment nxt' prv' p l₁ a' ∧ Segment nxt' prv' b' l₂ n := by
  obtain ⟨distinctLeft, distinctRight, apart⟩ := List.nodup_append.mp distinct
  constructor
  · apply left.exit distinctLeft
    · intro j member
      apply samePrev j (by simp [member])
      intro first
      exact apart j member j (List.mem_of_head? first) rfl
    · intro j member
      exact sameNext j (by simp [member])
    · exact linkNext
  · apply right.entry distinctRight
    · intro j member
      apply sameNext j (by simp [member])
      intro last
      exact apart j (List.mem_of_getLast? last) j member rfl
    · intro j member
      exact samePrev j (by simp [member])
    · exact linkPrev

theorem Segment.insert {i : ι} (segment : Segment nxt prv p (l₁ ++ l₂) n)
    (distinct : (l₁ ++ l₂).Nodup)
    (forward : nxt' i = l₂.headD n) (back : prv' i = l₁.getLastD p)
    (sameNext : ∀ j ∈ l₁ ++ l₂, l₁.getLast? ≠ some j → nxt' j = nxt j)
    (samePrev : ∀ j ∈ l₁ ++ l₂, l₂.head? ≠ some j → prv' j = prv j)
    (linkNext : ∀ j, l₁.getLast? = some j → nxt' j = i)
    (linkPrev : ∀ j, l₂.head? = some j → prv' j = i) :
    Segment nxt' prv' p (l₁ ++ i :: l₂) n := by
  obtain ⟨left, right⟩ := segment_append.mp segment
  obtain ⟨before, after⟩ := left.rejoin right distinct sameNext samePrev linkNext linkPrev
  rw [segment_append]
  exact ⟨before, back, forward, after⟩

theorem Segment.remove {i : ι} (segment : Segment nxt prv p (l₁ ++ i :: l₂) n)
    (distinct : (l₁ ++ l₂).Nodup)
    (sameNext : ∀ j ∈ l₁ ++ l₂, l₁.getLast? ≠ some j → nxt' j = nxt j)
    (samePrev : ∀ j ∈ l₁ ++ l₂, l₂.head? ≠ some j → prv' j = prv j)
    (linkNext : ∀ j, l₁.getLast? = some j → nxt' j = nxt i)
    (linkPrev : ∀ j, l₂.head? = some j → prv' j = prv i) :
    Segment nxt' prv' p (l₁ ++ l₂) n := by
  obtain ⟨left, back, forward, right⟩ := segment_append.mp segment
  rw [segment_append]
  apply left.rejoin right distinct sameNext samePrev
  · intro j last
    exact (linkNext j last).trans forward
  · intro j first
    exact (linkPrev j first).trans back

theorem Segment.next_of_mem {i : ι} (segment : Segment nxt prv p (l₁ ++ i :: l₂) n) :
    nxt i = l₂.headD n := (segment_append.mp segment).2.2.1

theorem Segment.prev_of_mem {i : ι} (segment : Segment nxt prv p (l₁ ++ i :: l₂) n) :
    prv i = l₁.getLastD p := (segment_append.mp segment).2.1

section Relink

variable [DecidableEq ι]

def relink (o : ι) (f : ι → ι) (i v : ι) : ι → ι :=
  if i = o then f else Function.update f i v

theorem relink_of_ne {f : ι → ι} {i v j : ι} (other : j ≠ i) : relink o f i v j = f j := by
  rw [relink]
  split
  · rfl
  · exact Function.update_of_ne other v f

theorem relink_self {f : ι → ι} {i : ι} (v : ι) (real : i ≠ o) : relink o f i v i = v := by
  rw [relink, if_neg real, Function.update_self]

theorem Segment.insert_relink {i : ι} (segment : Segment nxt prv o (l₁ ++ l₂) o)
    (distinct : (l₁ ++ l₂).Nodup) (sentinel : o ∉ l₁ ++ l₂) (fresh : i ∉ l₁ ++ l₂) (real : i ≠ o) :
    Segment (relink o (Function.update nxt i (l₂.headD o)) (l₁.getLastD o) i)
      (relink o (Function.update prv i (l₁.getLastD o)) (l₂.headD o) i) o (l₁ ++ i :: l₂) o := by
  have memberLast : ∀ j, l₁.getLast? = some j → j ∈ l₁ ++ l₂ := fun j last =>
    List.mem_append_left _ (List.mem_of_getLast? last)
  have memberFirst : ∀ j, l₂.head? = some j → j ∈ l₁ ++ l₂ := fun j first =>
    List.mem_append_right _ (List.mem_of_head? first)
  have apart : ∀ j ∈ l₁ ++ l₂, j ≠ i ∧ j ≠ o := fun j member =>
    ⟨fun same => fresh (same ▸ member), fun same => sentinel (same ▸ member)⟩
  apply segment.insert distinct
  · rw [relink_of_ne, Function.update_self]
    apply getLastD_ne o real
    intro last
    exact fresh (memberLast i last)
  · rw [relink_of_ne, Function.update_self]
    apply headD_ne o real
    intro first
    exact fresh (memberFirst i first)
  · intro j member notLast
    rw [relink_of_ne (getLastD_ne o (apart j member).2 notLast), Function.update_of_ne (apart j member).1]
  · intro j member notFirst
    rw [relink_of_ne (headD_ne o (apart j member).2 notFirst), Function.update_of_ne (apart j member).1]
  · intro j last
    rw [getLastD_of_getLast? o last, relink_self _ (apart j (memberLast j last)).2]
  · intro j first
    rw [headD_of_head? o first, relink_self _ (apart j (memberFirst j first)).2]

theorem Segment.remove_relink {i : ι} (segment : Segment nxt prv o (l₁ ++ i :: l₂) o)
    (distinct : (l₁ ++ i :: l₂).Nodup) (sentinel : o ∉ l₁ ++ i :: l₂) :
    Segment (relink o nxt (prv i) (nxt i)) (relink o prv (nxt i) (prv i)) o (l₁ ++ l₂) o := by
  rw [List.perm_middle.nodup_iff, List.nodup_cons] at distinct
  have apart : ∀ j ∈ l₁ ++ l₂, j ≠ o := by
    rintro j member rfl
    rw [List.mem_append] at member
    exact sentinel (by rw [List.mem_append, List.mem_cons]; tauto)
  have back := segment.prev_of_mem
  have forward := segment.next_of_mem
  apply segment.remove distinct.2
  · intro j member notLast
    rw [back, relink_of_ne (getLastD_ne o (apart j member) notLast)]
  · intro j member notFirst
    rw [forward, relink_of_ne (headD_ne o (apart j member) notFirst)]
  · intro j last
    rw [back, getLastD_of_getLast? o last]
    exact relink_self _ (apart j (List.mem_append_left _ (List.mem_of_getLast? last)))
  · intro j first
    rw [forward, headD_of_head? o first]
    exact relink_self _ (apart j (List.mem_append_right _ (List.mem_of_head? first)))

end Relink

end Linked
