import Titan.Book.Stock
import Titan.Data.Transition
import Mathlib.Data.List.Dedup

namespace Titan

open Linked

namespace PinNode

inductive NodeCall
  | insert (o : Order)
  | remove (slot : Nat)

inductive Reply
  | inserted (slot : Nat)
  | removed (removed : Bool)
  deriving DecidableEq, Repr

/-- A node, and the slots that inserts have filled, one entry for each insert. -/
structure History where
  node : PinNode
  inserted : List Nat

namespace History

def start (n : PinNode) : History := { node := n.reset, inserted := [] }

def step : NodeCall → History → Option (History × Reply)
  | .insert o, h =>
    let (node, slot) := h.node.insert o
    some ({ node := node, inserted := if slot = INVALID_INDEX then h.inserted else h.inserted ++ [slot] }, .inserted slot)
  | .remove slot, h =>
    let (node, removed) := h.node.remove slot
    some ({ h with node := node }, .removed removed)

def waiting (h : History) : List Nat := h.inserted.dedup.filter fun s => h.node.occupancyMask.getLsbD s

end History

variable {n : PinNode} {q : List Nat} {s : Nat}

theorem dedup_concat (l : List Nat) (s : Nat) : (l ++ [s]).dedup = l.dedup.filter (fun i => decide (i ≠ s)) ++ [s] := by
  induction l with
  | nil => rfl
  | cons i rest ih =>
    rw [List.cons_append]
    by_cases later : i ∈ rest
    · rw [List.dedup_cons_of_mem later, List.dedup_cons_of_mem (List.mem_append_left _ later), ih]
    · by_cases same : i = s
      · have member : i ∈ rest ++ [s] := List.mem_append_right _ (List.mem_singleton.mpr same)
        rw [List.dedup_cons_of_mem member, ih, List.dedup_cons_of_notMem later, List.filter_cons_of_neg (by simpa using same)]
      · have fresh : i ∉ rest ++ [s] := by simp [later, same]
        rw [List.dedup_cons_of_notMem fresh, ih, List.dedup_cons_of_notMem later,
          List.filter_cons_of_pos (by simpa using same), List.cons_append]

theorem insert_full (full : n.full = true) (o : Order) : n.insert o = (n, INVALID_INDEX) := by
  rw [insert, if_pos ((full_iff n).mp full)]

theorem insert_lowest (room : n.full = false) (o : Order) : ∀ i < (n.insert o).2, n.occupancyMask.getLsbD i = true := by
  have free : ~~~n.occupancyMask ≠ 0 := by
    intro zero
    rw [(full_iff n).mpr zero] at room
    cases room
  intro i low
  rw [insert, if_neg free] at low
  have wide : i < 64 := Nat.lt_trans low (BitVec.lt_def.mp (BitVec.ctz_lt_iff_ne_zero.mpr free))
  have taken := BitVec.getLsbD_false_of_lt_ctz low
  rw [BitVec.getLsbD_not] at taken
  simpa [wide] using taken

theorem remove_missing (queued : Queued n q) (absent : s ∉ q) : n.remove s = (n, false) := by
  rw [remove]
  split
  · rfl
  · rename_i low
    have clear : n.occupancyMask &&& 1#64 <<< s = 0 := by
      rw [and_bit_eq_zero_iff _ (Nat.not_le.mp low), ← Bool.not_eq_true, ← queued.occupied]
      exact absent
    rw [if_pos clear]

theorem Queued.full_iff_length (queued : Queued n q) : n.full = true ↔ q.length = CAPACITY := by
  have all : q.length = CAPACITY ↔ ∀ s < CAPACITY, s ∈ q := by
    constructor
    · intro length s low
      have inside : q ⊆ List.range CAPACITY := fun i member => List.mem_range.mpr (queued.lt_capacity member)
      have perm : q.Perm (List.range CAPACITY) := by
        apply (List.subperm_of_subset queued.distinct inside).perm_of_length_le
        rw [length, List.length_range]
      exact perm.mem_iff.mpr (List.mem_range.mpr low)
    · intro every
      apply Nat.le_antisymm (OrderBook.Stock.length_le_capacity queued)
      have inside : List.range CAPACITY ⊆ q := fun i member => every i (List.mem_range.mp member)
      have short := (List.subperm_of_subset List.nodup_range inside).length_le
      rwa [List.length_range] at short
  rw [all, full_iff]
  constructor
  · intro zero s low
    rw [queued.occupied]
    have bit := congrArg (BitVec.getLsbD · s) zero
    simpa [show s < 64 from low] using bit
  · intro every
    apply BitVec.eq_of_getLsbD_eq
    intro s low
    have bit := (queued.occupied s).mp (every s low)
    simp [bit]

theorem Queued.empty_slots (queued : Queued n q) :
    (n.headSlot = NIL_SLOT ↔ n.occupancyMask = 0) ∧ (n.tailSlot = NIL_SLOT ↔ n.occupancyMask = 0) := by
  have none := queued.empty_iff
  rw [empty, beq_iff_eq] at none
  rw [none, queued.head, queued.tail]
  cases q with
  | nil => simp
  | cons i rest =>
    have first : (i :: rest).headD NIL_SLOT ≠ NIL_SLOT := fun same =>
      queued.nil_not_mem (same ▸ headD_mem NIL_SLOT (List.cons_ne_nil i rest))
    have last : (i :: rest).getLastD NIL_SLOT ≠ NIL_SLOT := fun same =>
      queued.nil_not_mem (same ▸ getLastD_mem NIL_SLOT (List.cons_ne_nil i rest))
    simp only [first, last, reduceCtorEq, and_self]

namespace History

variable {h h' : History}

def Tracked (h : History) : Prop := Queued h.node h.waiting

theorem start_tracked (n : PinNode) : (start n).Tracked := reset_queued n

theorem Tracked.insert {node : PinNode} (tracked : h.Tracked) {o : Order} (room : h.node.full = false)
    (call : h.node.insert o = (node, s)) :
    ({ node := node, inserted := h.inserted ++ [s] } : History).waiting = h.waiting ++ [s] ∧
      Queued node (h.waiting ++ [s]) := by
  rcases insert_spec tracked room o with ⟨n', s', again, fresh, low, queued, -, -, -⟩
  rw [call] at again
  cases again
  refine ⟨?_, queued⟩
  have bits : ∀ i, node.occupancyMask.getLsbD i = (h.node.occupancyMask.getLsbD i || decide (i = s)) := by
    intro i
    rw [Bool.eq_iff_iff, Bool.or_eq_true, decide_eq_true_eq, ← queued.occupied, ← tracked.occupied, List.mem_append,
      List.mem_singleton]
  have clear : h.node.occupancyMask.getLsbD s = false := by
    rw [← Bool.not_eq_true, ← tracked.occupied]
    exact fresh
  rw [waiting, waiting, dedup_concat, List.filter_append, List.filter_filter]
  congr 1
  · apply List.filter_congr
    intro i _
    by_cases same : i = s
    · subst same
      simp [clear]
    · simp [bits, same]
  · rw [List.filter_cons_of_pos (by simp [bits]), List.filter_nil]

theorem Tracked.remove {node : PinNode} (tracked : h.Tracked) (member : s ∈ h.waiting)
    (call : h.node.remove s = (node, true)) :
    ({ h with node := node } : History).waiting = h.waiting.erase s ∧ Queued node (h.waiting.erase s) ∧
      node.slots = h.node.slots := by
  rcases List.append_of_mem member with ⟨l₁, l₂, split⟩
  have here : Queued h.node (l₁ ++ s :: l₂) := split ▸ tracked
  rcases remove_spec here with ⟨n', again, queued, slots, -, -⟩
  rw [call] at again
  cases again
  have distinct := tracked.distinct
  have erased : h.waiting.erase s = l₁ ++ l₂ := by
    rw [split, List.perm_middle.nodup_iff, List.nodup_cons, List.mem_append, not_or] at distinct
    rw [split, List.erase_append_right _ distinct.1.1, List.erase_cons_head]
  rw [← erased] at queued
  refine ⟨?_, queued, slots⟩
  have bits : ∀ i, node.occupancyMask.getLsbD i = (decide (i ≠ s) && h.node.occupancyMask.getLsbD i) := by
    intro i
    rw [Bool.eq_iff_iff, Bool.and_eq_true, decide_eq_true_eq, ← queued.occupied, ← tracked.occupied,
      distinct.mem_erase_iff]
  rw [distinct.erase_eq_filter, waiting, waiting, List.filter_filter]
  apply List.filter_congr
  intro i _
  by_cases same : i = s
  · simp [bits, same]
  · simp [bits, same]

structure Served (h : History) : Prop where
  inserts : ∀ o h' slot, step (.insert o) h = some (h', .inserted slot) →
    (slot = INVALID_INDEX ↔ h.waiting.length = CAPACITY) ∧ (slot = INVALID_INDEX → h' = h) ∧
    (slot ≠ INVALID_INDEX → slot < CAPACITY ∧ slot ∉ h.waiting ∧ (∀ i < slot, i ∈ h.waiting) ∧
      h'.waiting = h.waiting ++ [slot] ∧ h'.node.slots slot = o ∧ ∀ i ∈ h.waiting, h'.node.slots i = h.node.slots i)
  removes : ∀ slot h' removed, step (.remove slot) h = some (h', .removed removed) →
    (removed = true ↔ slot < CAPACITY ∧ h.node.occupancyMask.getLsbD slot = true) ∧ (removed = false → h' = h) ∧
    h'.waiting = h.waiting.erase slot ∧ h'.node.slots = h.node.slots

theorem slot_ne_invalid (low : s < CAPACITY) : s ≠ INVALID_INDEX := by
  intro same
  rw [same] at low
  exact absurd low (by decide)

theorem step_tracked {call : NodeCall} {reply : Reply} (tracked : h.Tracked) (taken : step call h = some (h', reply)) :
    h'.Tracked := by
  cases call with
  | insert o =>
    cases full : h.node.full with
    | true =>
      simp only [step, insert_full full, if_true] at taken
      cases taken
      exact tracked
    | false =>
      rcases insert_spec tracked full o with ⟨node, s, call, -, low, -⟩
      rcases tracked.insert full call with ⟨same, queued⟩
      simp only [step, call, if_neg (slot_ne_invalid low)] at taken
      cases taken
      rw [Tracked, same]
      exact queued
  | remove s =>
    by_cases member : s ∈ h.waiting
    · rcases List.append_of_mem member with ⟨l₁, l₂, split⟩
      have here : Queued h.node (l₁ ++ s :: l₂) := split ▸ tracked
      rcases remove_spec here with ⟨node, call, -⟩
      rcases tracked.remove member call with ⟨same, queued, -⟩
      simp only [step, call] at taken
      cases taken
      rw [Tracked, same]
      exact queued
    · simp only [step, remove_missing tracked member] at taken
      cases taken
      exact tracked

theorem Tracked.served (tracked : h.Tracked) : h.Served where
  inserts o h' slot taken := by
    cases full : h.node.full with
    | true =>
      simp only [step, insert_full full, if_true] at taken
      cases taken
      have length := tracked.full_iff_length.mp full
      exact ⟨⟨fun _ => length, fun _ => rfl⟩, fun _ => rfl, fun other => absurd rfl other⟩
    | false =>
      have lowest := insert_lowest full o
      rcases insert_spec tracked full o with ⟨node, s, call, fresh, low, -, slots, -⟩
      rcases tracked.insert full call with ⟨same, -⟩
      rw [call] at lowest
      have real := slot_ne_invalid low
      simp only [step, call, if_neg real] at taken
      cases taken
      have length : h.waiting.length ≠ CAPACITY := by
        intro length
        rw [tracked.full_iff_length.mpr length] at full
        cases full
      refine ⟨⟨fun none => absurd none real, fun all => absurd all length⟩, fun none => absurd none real, ?_⟩
      intro _
      refine ⟨low, fresh, ?_, same, by rw [slots, Function.update_self], ?_⟩
      · intro i below
        rw [tracked.occupied]
        exact lowest i below
      · intro i member
        have apart : i ≠ slot := fun equal => fresh (equal ▸ member)
        rw [slots, Function.update_of_ne apart]
  removes slot h' removed taken := by
    by_cases member : slot ∈ h.waiting
    · rcases List.append_of_mem member with ⟨l₁, l₂, split⟩
      have here : Queued h.node (l₁ ++ slot :: l₂) := split ▸ tracked
      rcases remove_spec here with ⟨node, call, -⟩
      rcases tracked.remove member call with ⟨same, -, slots⟩
      simp only [step, call] at taken
      cases taken
      have bit := (tracked.occupied slot).mp member
      refine ⟨⟨?_, fun _ => rfl⟩, ?_, same, slots⟩
      · intro _
        exact ⟨tracked.lt_capacity member, bit⟩
      · intro none
        cases none
    · simp only [step, remove_missing tracked member] at taken
      cases taken
      have clear := (tracked.occupied slot).not.mp member
      refine ⟨⟨?_, ?_⟩, fun _ => rfl, (List.erase_of_not_mem member).symm, rfl⟩
      · intro yes
        cases yes
      · intro both
        exact absurd both.2 clear

/-- A node is a bounded queue: whatever it held before `reset`, and whatever was inserted and
    removed since, its links visit the occupied slots in order of their latest insert. -/
theorem node_is_fifo (n : PinNode) (reach : Transition.Reachable step (start n) h) :
    Walk h.node.nextInTime NIL_SLOT h.node.headSlot h.waiting ∧
      Walk h.node.prevInTime NIL_SLOT h.node.tailSlot h.waiting.reverse ∧
      (∀ s, s ∈ h.waiting ↔ h.node.occupancyMask.getLsbD s = true) ∧ h.waiting.Nodup ∧
      (h.node.headSlot = NIL_SLOT ↔ h.node.occupancyMask = 0) ∧ (h.node.tailSlot = NIL_SLOT ↔ h.node.occupancyMask = 0) ∧
      h.Served := by
  have tracked : h.Tracked := reach.invariant (start_tracked n) fun _ _ _ _ before taken => step_tracked before taken
  have thread := tracked.thread
  rcases tracked.empty_slots with ⟨head, tail⟩
  refine ⟨?_, ?_, tracked.occupied, tracked.distinct, head, tail, tracked.served⟩
  · rw [tracked.head]
    exact thread.walk tracked.nil_not_mem
  · rw [tracked.tail]
    exact thread.walk_back tracked.nil_not_mem

/-- Two orders, the first cancelled, and a third that takes the freed slot behind the second, on
    a node whose links still hold what an earlier life left there. -/
theorem node_is_fifo_refilled :
    ∃ h : History, h.waiting = [1, 0] ∧ Walk h.node.nextInTime NIL_SLOT h.node.headSlot [1, 0] := by
  let order (id : OrderId) : Order := { id := id, seq := 0, price := 100, quantity := 5, remaining := 5, side := 0, type := 0 }
  let stale : PinNode :=
    { occupancyMask := 7, headSlot := 2, tailSlot := 0, next := 9, prev := 4, nextInTime := fun s => s + 1,
      prevInTime := fun s => s, slots := fun _ => order 9 }
  have ran : (Transition.run step [.insert (order 1), .insert (order 2), .remove 0, .insert (order 3)] (start stale)).map
      waiting = some [1, 0] := by decide +kernel
  rcases Option.map_eq_some_iff.mp ran with ⟨h, path, waiting⟩
  have walk := (node_is_fifo stale (Transition.Reachable.start.run path)).1
  rw [waiting] at walk
  exact ⟨h, waiting, walk⟩

end History

end PinNode

end Titan
