import Titan.Data.Segment
import Titan.Domain.Types

namespace Titan

open Linked

structure PinNode where
  occupancyMask : BitVec 64
  headSlot : Nat
  tailSlot : Nat
  next : Nat
  prev : Nat
  nextInTime : Nat → Nat
  prevInTime : Nat → Nat
  slots : Nat → Order

namespace PinNode

def CAPACITY : Nat := 64

def NIL_SLOT : Nat := 0xFF

/-- The links within the node are left as they were. -/
def reset (n : PinNode) : PinNode :=
  { n with occupancyMask := 0, headSlot := NIL_SLOT, tailSlot := NIL_SLOT, next := INVALID_INDEX, prev := INVALID_INDEX }

def setNext (n : PinNode) (next : Nat) : PinNode := { n with next := next }

def setPrev (n : PinNode) (prev : Nat) : PinNode := { n with prev := prev }

def setSlot (n : PinNode) (s : Nat) (o : Order) : PinNode := { n with slots := Function.update n.slots s o }

def full (n : PinNode) : Bool := n.occupancyMask == ~~~0

def empty (n : PinNode) : Bool := n.occupancyMask == 0

/-- The lowest free slot takes the order and becomes the tail of the arrival chain. -/
def insert (n : PinNode) (o : Order) : PinNode × Nat :=
  let free := ~~~n.occupancyMask
  if free = 0 then (n, INVALID_INDEX)
  else
    let s := free.ctz.toNat
    let n := { n with
      slots := Function.update n.slots s o
      occupancyMask := n.occupancyMask ||| 1#64 <<< s
      nextInTime := Function.update n.nextInTime s NIL_SLOT
      prevInTime := Function.update n.prevInTime s n.tailSlot }
    let n :=
      if n.tailSlot = NIL_SLOT then { n with headSlot := s }
      else { n with nextInTime := Function.update n.nextInTime n.tailSlot s }
    ({ n with tailSlot := s }, s)

def remove (n : PinNode) (s : Nat) : PinNode × Bool :=
  if s ≥ CAPACITY then (n, false)
  else
    let bit := 1#64 <<< s
    if n.occupancyMask &&& bit = 0 then (n, false)
    else
      let n := { n with occupancyMask := n.occupancyMask &&& ~~~bit }
      let before := n.prevInTime s
      let after := n.nextInTime s
      let n :=
        if before ≠ NIL_SLOT then { n with nextInTime := Function.update n.nextInTime before after }
        else { n with headSlot := after }
      let n :=
        if after ≠ NIL_SLOT then { n with prevInTime := Function.update n.prevInTime after before }
        else { n with tailSlot := before }
      (n, true)

/-- The occupied slots, oldest first. -/
structure Queued (n : PinNode) (q : List Nat) : Prop where
  occupied : ∀ s, s ∈ q ↔ n.occupancyMask.getLsbD s = true
  distinct : q.Nodup
  thread : Segment n.nextInTime n.prevInTime NIL_SLOT q NIL_SLOT
  head : n.headSlot = q.headD NIL_SLOT
  tail : n.tailSlot = q.getLastD NIL_SLOT

variable {n : PinNode} {q l₁ l₂ : List Nat} {s : Nat}

theorem Queued.lt_capacity (queued : Queued n q) (member : s ∈ q) : s < CAPACITY := by
  by_contra high
  have bit := (queued.occupied s).mp member
  have clear := BitVec.getLsbD_of_ge n.occupancyMask s (Nat.not_lt.mp high)
  rw [clear] at bit
  cases bit

theorem Queued.nil_not_mem (queued : Queued n q) : NIL_SLOT ∉ q := by
  intro member
  exact absurd (queued.lt_capacity member) (by decide)

theorem Queued.empty_iff (queued : Queued n q) : n.empty = true ↔ q = [] := by
  rw [empty, beq_iff_eq, List.eq_nil_iff_forall_not_mem]
  constructor
  · intro zero s member
    have bit := (queued.occupied s).mp member
    rw [zero] at bit
    simp at bit
  · intro none
    apply BitVec.eq_of_getLsbD_eq
    intro s low
    have clear := none s
    rw [queued.occupied s, Bool.not_eq_true] at clear
    simpa using clear

theorem full_iff (n : PinNode) : n.full = true ↔ ~~~n.occupancyMask = 0 := by
  rw [full, beq_iff_eq]
  constructor
  · intro ones
    rw [ones]
    decide
  · intro zero
    rw [← BitVec.not_not (b := n.occupancyMask), zero]

theorem Queued.not_full (queued : Queued n []) : n.full = false := by
  rw [Bool.eq_false_iff]
  intro full
  have zero := beq_iff_eq.mp (queued.empty_iff.mpr rfl)
  have ones := beq_iff_eq.mp full
  rw [zero] at ones
  exact absurd ones (by decide)

theorem Queued.of_fields {n' : PinNode} (queued : Queued n q) (mask : n'.occupancyMask = n.occupancyMask)
    (head : n'.headSlot = n.headSlot) (tail : n'.tailSlot = n.tailSlot) (next : n'.nextInTime = n.nextInTime)
    (prev : n'.prevInTime = n.prevInTime) : Queued n' q where
  occupied s := by rw [mask]; exact queued.occupied s
  distinct := queued.distinct
  thread := by rw [next, prev]; exact queued.thread
  head := head.trans queued.head
  tail := tail.trans queued.tail

theorem reset_queued (n : PinNode) : Queued n.reset [] where
  occupied s := by simp [reset]
  distinct := List.nodup_nil
  thread := trivial
  head := rfl
  tail := rfl

theorem getLsbD_set (mask : BitVec 64) (low : s < 64) (i : Nat) :
    (mask ||| 1#64 <<< s).getLsbD i = (mask.getLsbD i || decide (i = s)) := by
  rw [BitVec.getLsbD_or, BitVec.getLsbD_shiftLeft, BitVec.getLsbD_one]
  by_cases same : i = s
  · subst same
    simp [low]
  · by_cases above : i < s
    · simp [above, same]
    · have apart : i - s ≠ 0 := by omega
      simp [same, apart]

theorem getLsbD_clear (mask : BitVec 64) (low : s < 64) (i : Nat) :
    (mask &&& ~~~(1#64 <<< s)).getLsbD i = (mask.getLsbD i && !decide (i = s)) := by
  rw [BitVec.getLsbD_and, BitVec.getLsbD_not, BitVec.getLsbD_shiftLeft, BitVec.getLsbD_one]
  by_cases same : i = s
  · subst same
    simp [low]
  · by_cases wide : i < 64
    · by_cases above : i < s
      · simp [above, same, wide]
      · have apart : i - s ≠ 0 := by omega
        simp [same, apart, wide]
    · rw [BitVec.getLsbD_of_ge _ _ (Nat.not_lt.mp wide)]
      simp

theorem and_bit_eq_zero_iff (mask : BitVec 64) (low : s < 64) :
    mask &&& 1#64 <<< s = 0 ↔ mask.getLsbD s = false := by
  constructor
  · intro zero
    have bit := congrArg (BitVec.getLsbD · s) zero
    simpa [low] using bit
  · intro clear
    apply BitVec.eq_of_getLsbD_eq
    intro i wide
    rw [BitVec.getLsbD_and, BitVec.getLsbD_shiftLeft, BitVec.getLsbD_one]
    by_cases same : i = s
    · subst same
      simp [clear]
    · by_cases above : i < s
      · simp [above]
      · have apart : i - s ≠ 0 := by omega
        simp [apart]

theorem insert_eq (room : n.full = false) (o : Order) :
    ∃ s < CAPACITY, n.occupancyMask.getLsbD s = false ∧
      n.insert o = ({ n with
        slots := Function.update n.slots s o
        occupancyMask := n.occupancyMask ||| 1#64 <<< s
        headSlot := if n.tailSlot = NIL_SLOT then s else n.headSlot
        tailSlot := s
        nextInTime := relink NIL_SLOT (Function.update n.nextInTime s NIL_SLOT) n.tailSlot s
        prevInTime := Function.update n.prevInTime s n.tailSlot }, s) := by
  have free : ~~~n.occupancyMask ≠ 0 := by
    intro zero
    rw [(full_iff n).mpr zero] at room
    cases room
  have low : (~~~n.occupancyMask).ctz.toNat < 64 := BitVec.lt_def.mp (BitVec.ctz_lt_iff_ne_zero.mpr free)
  refine ⟨_, low, ?_, ?_⟩
  · have bit := BitVec.getLsbD_true_ctz_of_ne_zero free
    rw [BitVec.getLsbD_not] at bit
    simpa [low] using bit
  · rw [insert, if_neg free]
    by_cases last : n.tailSlot = NIL_SLOT
    · simp only [last, relink, if_pos]
    · simp only [last, relink, if_false]

theorem insert_spec (queued : Queued n q) (room : n.full = false) (o : Order) :
    ∃ n' s, n.insert o = (n', s) ∧ s ∉ q ∧ s < CAPACITY ∧ Queued n' (q ++ [s]) ∧
      n'.slots = Function.update n.slots s o ∧ n'.next = n.next ∧ n'.prev = n.prev := by
  rcases insert_eq room o with ⟨s, low, clear, inserted⟩
  have fresh : s ∉ q := by
    rw [queued.occupied, clear]
    exact Bool.false_ne_true
  refine ⟨_, s, inserted, fresh, low, ⟨?_, ?_, ?_, ?_, ?_⟩, rfl, rfl, rfl⟩
  · intro i
    rw [getLsbD_set _ low, List.mem_append, queued.occupied]
    simp
  · rw [List.nodup_append]
    refine ⟨queued.distinct, by simp, ?_⟩
    intro i member j single same
    rw [same, List.mem_singleton.mp single] at member
    exact fresh member
  · have thread := queued.thread
    rw [← List.append_nil q] at thread
    have real : s ≠ NIL_SLOT := by
      intro same
      rw [same] at low
      exact absurd low (by decide)
    have linked := thread.insert_relink (by simpa using queued.distinct) (by simpa using queued.nil_not_mem)
      (by simpa using fresh) real
    rw [queued.tail]
    simpa [relink] using linked
  · rw [queued.tail]
    cases q with
    | nil => rfl
    | cons i rest =>
      have last : (i :: rest).getLastD NIL_SLOT ≠ NIL_SLOT := fun same =>
        queued.nil_not_mem (same ▸ getLastD_mem NIL_SLOT (List.cons_ne_nil i rest))
      simp only [if_neg last]
      exact queued.head
  · rw [getLastD_append]
    rfl

theorem remove_spec (queued : Queued n (l₁ ++ s :: l₂)) :
    ∃ n', n.remove s = (n', true) ∧ Queued n' (l₁ ++ l₂) ∧ n'.slots = n.slots ∧ n'.next = n.next ∧
      n'.prev = n.prev := by
  have member : s ∈ l₁ ++ s :: l₂ := by simp
  have low := queued.lt_capacity member
  have bit := (queued.occupied s).mp member
  have taken : ¬n.occupancyMask &&& 1#64 <<< s = 0 := by
    rw [and_bit_eq_zero_iff _ low, bit]
    exact Bool.false_ne_true.symm
  have back := queued.thread.prev_of_mem
  have forward := queued.thread.next_of_mem
  have removed : n.remove s = ({ n with
      occupancyMask := n.occupancyMask &&& ~~~(1#64 <<< s)
      headSlot := if n.prevInTime s = NIL_SLOT then n.nextInTime s else n.headSlot
      tailSlot := if n.nextInTime s = NIL_SLOT then n.prevInTime s else n.tailSlot
      nextInTime := relink NIL_SLOT n.nextInTime (n.prevInTime s) (n.nextInTime s)
      prevInTime := relink NIL_SLOT n.prevInTime (n.nextInTime s) (n.prevInTime s) }, true) := by
    rw [remove, if_neg (Nat.not_le.mpr low), if_neg taken]
    by_cases first : n.prevInTime s = NIL_SLOT <;> by_cases last : n.nextInTime s = NIL_SLOT <;>
      simp [first, last, relink]
  have distinct := queued.distinct
  rw [List.perm_middle.nodup_iff, List.nodup_cons] at distinct
  have inside : ∀ i ∈ l₁ ++ l₂, i ≠ NIL_SLOT := by
    intro i other same
    apply queued.nil_not_mem
    rw [← same]
    simp only [List.mem_append, List.mem_cons] at other ⊢
    tauto
  refine ⟨_, removed, ⟨?_, distinct.2, ?_, ?_, ?_⟩, rfl, rfl, rfl⟩
  · intro i
    rw [getLsbD_clear _ low]
    have before := queued.occupied i
    by_cases same : i = s
    · subst same
      simp only [decide_true, Bool.not_true, Bool.and_false, Bool.false_eq_true, iff_false]
      exact distinct.1
    · simp only [same, decide_false, Bool.not_false, Bool.and_true, ← before]
      simp [same]
  · exact queued.thread.remove_relink queued.distinct queued.nil_not_mem
  · rw [back, forward, headD_append]
    cases l₁ with
    | nil => rfl
    | cons i rest =>
      have real := inside _ (List.mem_append_left _ (getLastD_mem NIL_SLOT (List.cons_ne_nil i rest)))
      rw [if_neg real, queued.head]
      rfl
  · rw [back, forward, getLastD_append]
    cases l₂ with
    | nil => rfl
    | cons i rest =>
      have real := inside i (by simp)
      rw [List.headD_cons, if_neg real, queued.tail, getLastD_append, List.getLastD_cons, List.getLastD_cons,
        List.getLastD_cons]

end PinNode

end Titan
