import Titan.Pipeline.RingProgress
import Mathlib.Algebra.BigOperators.Ring.List

namespace Titan

open Transition

namespace SpscRing

variable {T : Type} {size : Nat} {s s' : SpscRing T} {e : Event T} {labels : List (Action T)}

def Consumer.busy : Consumer T → Bool
  | .idle => false
  | _ => true

def Producer.trying : Producer T → Bool
  | .publish _ | .full _ _ | .write _ _ | .store _ _ => true
  | _ => false

def Action.byConsumer : Action T → Bool
  | .tryConsume | .consumeBatch | .consumer => true
  | _ => false

def Action.byProducer : Action T → Bool
  | .tryPublish _ | .publishBatch _ | .producer => true
  | _ => false

theorem Inv.left_le (inv : Inv size s) (positive : 0 < size) : s.consumer.left size ≤ 2 * size + 3 := by
  have room := inv.room
  have consuming := inv.consuming
  revert consuming
  cases s.consumer <;> intro consuming <;> simp only [Consumer.left]
  case handle =>
    rcases consuming with ⟨rfl, low, high, bound, -⟩
    omega
  case handling =>
    rcases consuming with ⟨rfl, low, high, bound, -⟩
    omega
  all_goals omega

theorem trying_left (trying : s.producer.trying = true) : s.producer.left ≤ 4 := by
  revert trying
  cases s.producer <;> simp [Producer.trying, Producer.left]

inductive Started (s s' : SpscRing T) : Action T → Prop
  | tryPublish {item : T} (idle : s.producer = .idle) (next : s' = { s with producer := .publish item }) :
      Started s s' (.tryPublish item)
  | publishBatch {items : List T} (idle : s.producer = .idle) (next : s' = { s with producer := .batch items 0 }) :
      Started s s' (.publishBatch items)
  | tryConsume (idle : s.consumer = .idle) (next : s' = { s with consumer := .consume }) : Started s s' .tryConsume
  | consumeBatch (idle : s.consumer = .idle) (next : s' = { s with consumer := .drain }) : Started s s' .consumeBatch

theorem step_cases {a : Action T} (taken : step size a s = some (s', e)) :
    Started s s' a ∨ a = .producer ∧ s.produce size = some (s', e) ∨ a = .consumer ∧ s.consume size = some (s', e) ∨
      a = .handlerRead ∧ s' = s := by
  cases a with
  | tryPublish item =>
    cases here : s.producer <;> simp [step, here] at taken
    exact .inl (.tryPublish here taken.1.symm)
  | publishBatch items =>
    cases here : s.producer <;> simp [step, here] at taken
    exact .inl (.publishBatch here taken.1.symm)
  | producer => exact .inr (.inl ⟨rfl, produce_of_step taken⟩)
  | tryConsume =>
    cases here : s.consumer <;> simp [step, here] at taken
    exact .inl (.tryConsume here taken.1.symm)
  | consumeBatch =>
    cases here : s.consumer <;> simp [step, here] at taken
    exact .inl (.consumeBatch here taken.1.symm)
  | consumer => exact .inr (.inr (.inl ⟨rfl, consume_of_step taken⟩))
  | handlerRead =>
    cases here : s.consumer <;> simp [step, here] at taken
    exact .inr (.inr (.inr ⟨rfl, taken.1.symm⟩))

theorem step_consumer_left {a : Action T} (inv : Inv size s) (busy : s.consumer.busy = true)
    (taken : step size a s = some (s', e)) :
    a.byConsumer.toNat + s'.consumer.left size ≤ s.consumer.left size := by
  rcases step_cases taken with started | ⟨rfl, produced⟩ | ⟨rfl, consumed⟩ | ⟨rfl, rfl⟩
  · cases started with
    | tryPublish idle next | publishBatch idle next =>
      rw [next]
      exact Nat.le_of_eq (Nat.zero_add _)
    | tryConsume idle | consumeBatch idle =>
      rw [idle] at busy
      cases busy
  · rw [(produce_calls produced).2.consumer]
    exact Nat.le_of_eq (Nat.zero_add _)
  · have less := consume_left inv consumed
    rw [Nat.add_comm]
    exact less
  · exact Nat.le_of_eq (Nat.zero_add _)

theorem produce_trying (trying : s.producer.trying = true) (taken : s.produce size = some (s', e)) :
    s'.producer.left < s.producer.left := by
  unfold produce at taken
  split at taken
  all_goals rename_i here; rw [here] at trying ⊢
  · cases trying
  · split at taken <;> cases taken <;> simp [Producer.left]
  · split at taken <;> cases taken <;> simp [Producer.left]
  · cases taken
    exact Nat.one_lt_two
  · cases taken
    exact Nat.one_pos
  · cases trying
  · cases trying
  · cases trying

theorem consume_producer (taken : s.consume size = some (s', e)) : s'.producer = s.producer := by
  unfold consume at taken
  split at taken
  · cases taken
  all_goals first | (cases taken; rfl) | (split at taken <;> cases taken <;> rfl)

theorem step_producer_left {a : Action T} (trying : s.producer.trying = true) (taken : step size a s = some (s', e)) :
    a.byProducer.toNat + s'.producer.left ≤ s.producer.left := by
  rcases step_cases taken with started | ⟨rfl, produced⟩ | ⟨rfl, consumed⟩ | ⟨rfl, rfl⟩
  · cases started with
    | tryPublish idle | publishBatch idle =>
      rw [idle] at trying
      cases trying
    | tryConsume idle next | consumeBatch idle next =>
      rw [next]
      exact Nat.le_of_eq (Nat.zero_add _)
  · have less := produce_trying trying produced
    rw [Nat.add_comm]
    exact less
  · rw [consume_producer consumed]
    exact Nat.le_of_eq (Nat.zero_add _)
  · exact Nat.le_of_eq (Nat.zero_add _)

theorem countP_eq_sum {α : Type} (p : α → Bool) (l : List α) : l.countP p = (l.map fun a => (p a).toNat).sum := by
  induction l with
  | nil => rfl
  | cons a rest ih => cases here : p a <;> simp [here, ih, Nat.add_comm]

/-- No call waits for the other thread: whatever it does meanwhile, a call of the consumer returns after at
    most `2 * size + 3` steps of its own, and `try_publish` after at most four. -/
theorem spsc_wait_free (power : ∃ k, size = 2 ^ k) {blank : T} (reach : Reachable (step size) (create blank) s) :
    (runIf (step size) (fun _ s => s.consumer.busy = true) labels s = some s' →
      labels.countP Action.byConsumer ≤ 2 * size + 3) ∧
    (runIf (step size) (fun _ s => s.producer.trying = true) labels s = some s' → labels.countP Action.byProducer ≤ 4) := by
  have inv := reachable_inv power reach
  have positive : 0 < size := by
    rcases power with ⟨k, rfl⟩
    exact Nat.two_pow_pos k
  constructor
  · intro ran
    have paid := runIf_charged (I := Inv size) (fun s => s.consumer.left size) (fun _ => 0) (fun a => a.byConsumer.toNat)
      (fun _ => 0) (fun s a s' e inv busy taken => ⟨step_inv power inv taken, step_consumer_left inv busy taken⟩) ran inv
    have bound := inv.left_le positive
    simp only [List.map_const', List.sum_replicate_nat] at paid
    rw [countP_eq_sum]
    omega
  · intro ran
    have paid := runIf_charged (I := fun _ => True) (fun s => s.producer.left) (fun _ => 0) (fun a => a.byProducer.toNat)
      (fun _ => 0) (fun s a s' e _ trying taken => ⟨trivial, step_producer_left trying taken⟩) ran trivial
    simp only [List.map_const', List.sum_replicate_nat] at paid
    rw [countP_eq_sum]
    cases labels with
    | nil => exact Nat.zero_le _
    | cons a rest =>
      have bound : s.producer.left ≤ 4 := by
        rw [runIf] at ran
        split at ran
        · rename_i trying
          exact trying_left trying
        · cases ran
      omega

theorem spsc_wait_free_beside : ∃ s s' : SpscRing Nat, Reachable (step 2) (create 0) s ∧
    runIf (step 2) (fun _ s => s.consumer.busy = true) [.consumer, .tryPublish 9, .consumer, .producer, .consumer, .consumer] s =
      some s' ∧ [Action.consumer, .tryPublish 9, .consumer, .producer, .consumer, .consumer].countP Action.byConsumer ≤ 2 * 2 + 3 := by
  have taken : ∃ s s', Transition.run (step 2) [.tryPublish 7, .producer, .producer, .producer, .consumeBatch]
      (create 0 : SpscRing Nat) = some s ∧
      runIf (step 2) (fun _ s => s.consumer.busy = true) [.consumer, .tryPublish 9, .consumer, .producer, .consumer, .consumer] s =
        some s' := ⟨_, _, rfl, rfl⟩
  rcases taken with ⟨s, s', path, ran⟩
  have reach : Reachable (step 2) (create 0 : SpscRing Nat) s := Reachable.start.run path
  exact ⟨s, s', reach, ran, (spsc_wait_free ⟨1, rfl⟩ reach).1 ran⟩

end SpscRing

namespace MpscRing

variable {ι T : Type} [DecidableEq ι] {size : Nat} {s s' : MpscRing ι T} {e : Event T} {i : ι} {labels : List (Action ι T)}

def Producer.busy : Producer T → Bool
  | .idle => false
  | _ => true

def Action.by (i : ι) : Action ι T → Bool
  | .tryPublish j _ => decide (j = i)
  | .producer j _ => decide (j = i)
  | _ => false

def Action.fails (i : ι) : Action ι T → Bool
  | .producer j spurious => decide (j = i) && spurious
  | _ => false

/-- The steps of `try_publish` if no other producer claims a cell: a position that is not the present
    one costs another round. -/
def Producer.left (enqueue : Nat) : Producer T → Nat
  | .idle => 0
  | .load _ => 5
  | .check _ pos => if pos = enqueue then 4 else 7
  | .claim _ pos => if pos = enqueue then 3 else 6
  | .write _ _ => 2
  | .publish _ _ => 1

omit [DecidableEq ι] in
theorem left_le (pc : Producer T) (enqueue : Nat) : pc.left enqueue ≤ 7 := by
  cases pc <;> simp only [Producer.left] <;> first | omega | (split <;> omega)

theorem left_next (pc : Producer T) (enqueue : Nat) : pc.left (enqueue + 1) ≤ pc.left enqueue + 3 := by
  cases pc <;> simp only [Producer.left] <;> first | omega | (split <;> split <;> omega)

theorem Inv.turn_le (inv : Inv size s) (wide : 2 ≤ size) : s.seq (s.enqueue % size) ≤ s.enqueue := by
  have order := inv.order
  have room := inv.room
  by_cases full : s.enqueue = s.freed + size
  · rw [full, Nat.add_mod_right]
    rcases inv.cell s.freed (Nat.le_refl _) (by omega) with ⟨turn, -⟩ | ⟨turn, -⟩ <;> omega
  · rcases inv.cell s.enqueue order (by omega) with ⟨turn, -⟩ | ⟨-, below, -⟩ <;> omega

theorem setProducer_left (s : MpscRing ι T) (i : ι) (pc : Producer T) :
    ((s.setProducer i pc).producers i).left (s.setProducer i pc).enqueue = pc.left s.enqueue := by
  show (Function.update s.producers i pc i).left s.enqueue = pc.left s.enqueue
  rw [Function.update_self]

theorem produce_charged (power : ∃ k, size = 2 ^ k) (wide : 2 ≤ size) (inv : Inv size s) {spurious : Bool}
    (taken : s.produce size i spurious = some (s', e)) :
    1 + (s'.producers i).left s'.enqueue + 3 * s.enqueue ≤
      (s.producers i).left s.enqueue + 3 * s'.enqueue + 2 * spurious.toNat := by
  have turn := inv.turn_le wide
  unfold produce at taken
  split at taken
  all_goals rename_i here; rw [here]
  · cases taken
  · cases taken
    simp only [setProducer, Function.update_self, Producer.left, if_true]
    omega
  · rename_i item pos
    dsimp only at taken
    rw [slotIndex_eq_mod power] at taken
    split at taken
    · cases taken
      rw [setProducer_left]
      show 1 + Producer.left s.enqueue (.claim item pos) + 3 * s.enqueue ≤ _ + 3 * s.enqueue + _
      simp only [Producer.left]
      split <;> omega
    · split at taken <;> cases taken
      · simp only [setProducer, Function.update_self, Producer.left]
        split <;> omega
      · -- the cell is ahead of the position, so the position is not the present one
        have stale : pos ≠ s.enqueue := by
          rintro rfl
          omega
        simp only [setProducer, Function.update_self, Producer.left, if_neg stale]
        omega
  · rename_i item pos
    split at taken <;> cases taken
    · rename_i won
      simp only [win, Function.update_self, Producer.left, if_pos won.1.symm]
      omega
    · rename_i lost
      simp only [setProducer, Function.update_self, Producer.left, if_true]
      by_cases present : pos = s.enqueue
      · have failed : spurious = true := by
          cases spurious with
          | true => rfl
          | false => exact absurd ⟨present.symm, rfl⟩ lost
        rw [if_pos present, failed, Bool.toNat_true]
        omega
      · rw [if_neg present]
        omega
  · cases taken
    simp only [writeCell, Function.update_self, Producer.left]
    omega
  · cases taken
    simp only [publishCell, Function.update_self, Producer.left]
    omega

/-- A step of another producer costs `i` at most a round, and only if it is a claim. -/
theorem produce_others {j : ι} {spurious : Bool} (other : i ≠ j) (taken : s.produce size j spurious = some (s', e)) :
    (s'.producers i).left s'.enqueue + 3 * s.enqueue ≤ (s.producers i).left s.enqueue + 3 * s'.enqueue := by
  have same := (produce_calls taken).2.producers i other
  have claims : s'.enqueue = s.enqueue ∨ s'.enqueue = s.enqueue + 1 := by
    unfold produce at taken
    split at taken
    · cases taken
    · cases taken
      exact .inl rfl
    · dsimp only at taken
      split at taken
      · cases taken
        exact .inl rfl
      · split at taken <;> cases taken <;> exact .inl rfl
    · split at taken <;> cases taken
      · rename_i won
        exact .inr (congrArg (· + 1) won.1.symm)
      · exact .inl rfl
    · cases taken
      exact .inl rfl
    · cases taken
      exact .inl rfl
  rw [same]
  rcases claims with equal | next
  · rw [equal]
  · rw [next]
    have delay := left_next (s.producers i) s.enqueue
    omega

omit [DecidableEq ι] in
theorem consume_producers (taken : s.consume size = some (s', e)) : s'.producers = s.producers ∧ s'.enqueue = s.enqueue := by
  unfold consume at taken
  split at taken
  · cases taken
  all_goals first | (cases taken; exact ⟨rfl, rfl⟩) | (split at taken <;> cases taken <;> exact ⟨rfl, rfl⟩)

theorem step_charged (power : ∃ k, size = 2 ^ k) (wide : 2 ≤ size) {a : Action ι T} (inv : Inv size s)
    (busy : (s.producers i).busy = true) (taken : step size a s = some (s', e)) :
    (a.by i).toNat + (s'.producers i).left s'.enqueue + 3 * s.enqueue ≤
      (s.producers i).left s.enqueue + 3 * s'.enqueue + 2 * (a.fails i).toNat := by
  cases a with
  | tryPublish j item =>
    simp only [step] at taken
    split at taken
    · rename_i idle
      cases taken
      have other : i ≠ j := by
        rintro rfl
        rw [idle] at busy
        cases busy
      simp [setProducer, Function.update_of_ne other, Action.by, Action.fails, other.symm]
    · cases taken
  | producer j spurious =>
    by_cases same : j = i
    · subst same
      have paid := produce_charged power wide inv taken
      simpa [Action.by, Action.fails] using paid
    · have paid := produce_others (Ne.symm same) taken
      simpa [Action.by, Action.fails, same] using paid
  | tryConsume | consumeBatch | handlerRead =>
    simp only [step] at taken
    split at taken <;> cases taken
    simp [Action.by, Action.fails]
  | consumer =>
    rcases consume_producers taken with ⟨producers, enqueue⟩
    rw [producers, enqueue]
    simp [Action.by, Action.fails]

/-- A call of `try_publish` that goes round again does so because another producer has claimed a cell,
    or its compare-exchange failed for no reason: it takes seven steps, three more for each
    claim meanwhile and two for each such failure. -/
theorem mpsc_lock_free (power : ∃ k, size = 2 ^ k) (wide : 2 ≤ size) {blank : T}
    (reach : Reachable (step size) (create blank : MpscRing ι T) s)
    (ran : runIf (step size) (fun _ s => (s.producers i).busy = true) labels s = some s') :
    labels.countP (Action.by i) ≤ 7 + 3 * (s'.enqueue - s.enqueue) + 2 * labels.countP (Action.fails i) := by
  have paid := runIf_charged (I := Inv size) (fun s => (s.producers i).left s.enqueue) (fun s => 3 * s.enqueue)
    (fun a => (a.by i).toNat) (fun a => 2 * (a.fails i).toNat)
    (fun s a s' e inv busy taken => ⟨step_inv power wide inv taken, step_charged power wide inv busy taken⟩) ran
    (reachable_inv power wide reach)
  have bound := left_le (s.producers i) s.enqueue
  have credits : (labels.map fun a => 2 * (a.fails i).toNat).sum = 2 * labels.countP (Action.fails i) := by
    rw [SpscRing.countP_eq_sum, List.sum_map_mul_left]
  rw [credits] at paid
  rw [SpscRing.countP_eq_sum]
  omega

/-- Two producers load the same position; the one that loses the cell goes round once more. -/
theorem mpsc_lock_free_lost : ∃ s s' : MpscRing (Fin 2) Nat, Reachable (step 2) (create 0) s ∧
    runIf (step 2) (fun _ s => (s.producers 1).busy = true) [.producer 1 false, .producer 1 false, .producer 0 false,
      .producer 1 false, .producer 1 false] s = some s' ∧ s'.enqueue - s.enqueue = 1 ∧
    [Action.producer (1 : Fin 2) false, .producer 1 false, .producer 0 false, .producer 1 false, .producer 1 false].countP
      (Action.by (T := Nat) 1) ≤ 7 + 3 * (s'.enqueue - s.enqueue) + 2 * 0 := by
  have taken : ∃ s s', Transition.run (step 2) [.tryPublish 0 7, .tryPublish 1 8, .producer 0 false, .producer 0 false]
      (create 0 : MpscRing (Fin 2) Nat) = some s ∧
      runIf (step 2) (fun _ s => (s.producers 1).busy = true) [.producer 1 false, .producer 1 false, .producer 0 false,
        .producer 1 false, .producer 1 false] s = some s' ∧ s'.enqueue - s.enqueue = 1 := ⟨_, _, rfl, rfl, rfl⟩
  rcases taken with ⟨s, s', path, ran, one⟩
  have reach : Reachable (step 2) (create 0 : MpscRing (Fin 2) Nat) s := Reachable.start.run path
  exact ⟨s, s', reach, ran, one, mpsc_lock_free ⟨1, rfl⟩ (by decide) reach ran⟩

end MpscRing

end Titan
