import Titan.Data.Progress
import Titan.Pipeline.RingCalls

namespace Titan

open Transition

namespace SpscRing

variable {T : Type} {size : Nat} {s s' : SpscRing T} {e : Event T}

def Consumer.left (size : Nat) : Consumer T → Nat
  | .idle => 0
  | .consume => 4
  | .empty _ => 3
  | .copy _ => 2
  | .free _ _ => 1
  | .drain => 2 * size + 3
  | .avail _ => 2 * size + 2
  | .handle _ seq last => 2 * (last - seq) + 1
  | .handling _ seq last => 2 * (last - seq)
  | .release _ _ => 1

theorem consume_enabled (size : Nat) (busy : s.consumer ≠ .idle) : ∃ s' e, s.consume size = some (s', e) := by
  unfold consume
  split
  · rename_i idle
    exact absurd idle busy
  all_goals first | exact ⟨_, _, rfl⟩ | (split <;> exact ⟨_, _, rfl⟩)

theorem consume_left (inv : Inv size s) (taken : s.consume size = some (s', e)) :
    s'.consumer.left size < s.consumer.left size := by
  have room := inv.room
  have consuming := inv.consuming
  unfold consume at taken
  split at taken
  all_goals rename_i here; rw [here] at consuming
  · cases taken
  · split at taken <;> cases taken <;> rw [here] <;> simp only [Consumer.left] <;> omega
  · split at taken <;> cases taken <;> rw [here] <;> simp only [Consumer.left] <;> omega
  · cases taken
    rw [here]
    exact Nat.one_lt_two
  · cases taken
    rw [here]
    exact Nat.one_pos
  · cases taken
    rw [here]
    exact Nat.lt_succ_self _
  · rcases consuming with ⟨rfl, -⟩
    split at taken <;> cases taken <;> rw [here] <;> simp only [Consumer.left] <;> omega
  · cases taken
    rw [here]
    exact Nat.lt_succ_self _
  · rcases consuming with ⟨-, -, high, -, -⟩
    split at taken <;> cases taken <;> rw [here] <;> simp only [Consumer.left] <;> omega
  · cases taken
    rw [here]
    exact Nat.one_pos

def Fresh (s : SpscRing T) : Prop :=
  match s.consumer with
  | .drain | .avail _ => True
  | .handle _ _ avail | .handling _ _ avail | .release _ avail => avail = s.cursor
  | _ => False

theorem consume_fresh (inv : Inv size s) (fresh : Fresh s) (taken : s.consume size = some (s', e)) :
    s'.consumer = .idle ∧ s'.next = s'.cursor ∨ Fresh s' := by
  have consuming := inv.consuming
  unfold consume at taken
  split at taken
  all_goals rename_i here; rw [here] at consuming; simp only [Fresh, here] at fresh
  · cases taken
    exact .inr trivial
  · rcases consuming with ⟨rfl, -⟩
    split at taken <;> cases taken
    · rename_i level
      exact .inl ⟨rfl, level⟩
    · exact .inr rfl
  · cases taken
    exact .inr fresh
  · split at taken <;> cases taken
    · exact .inr fresh
    · rename_i last
      exact .inr ((Decidable.not_not.mp last).trans fresh)
  · cases taken
    exact .inl ⟨rfl, fresh⟩

def Producer.left : Producer T → Nat
  | .idle => 0
  | .publish _ => 4
  | .full _ _ => 3
  | .write _ _ => 2
  | .store _ _ => 1
  | .batch items done => 4 * (items.length - done) + 1
  | .spin items done _ => 4 * (items.length - done)
  | .wave items done _ take i => if take = 0 then 4 * (items.length - done) + 2 else 4 * (items.length - done) - 1 - i

theorem startWave_room {items : List T} {done seq : Nat} (more : done < items.length)
    (room : seq - s.cachedConsumer < size) :
    (s.startWave size items done seq).producer.left < 4 * (items.length - done) := by
  rw [startWave]
  dsimp only
  rw [if_neg (Nat.not_le.mpr room)]
  have some : ¬(if items.length - done < size - (seq - s.cachedConsumer) then items.length - done
      else size - (seq - s.cachedConsumer)) = 0 := by
    split <;> omega
  simp only [Producer.left, if_neg some]
  omega

theorem startWave_left {items : List T} {done seq : Nat} (more : done < items.length) :
    (s.startWave size items done seq).producer.left ≤ 4 * (items.length - done) := by
  by_cases room : seq - s.cachedConsumer < size
  · exact Nat.le_of_lt (startWave_room more room)
  · rw [startWave]
    dsimp only
    rw [if_pos (Nat.not_lt.mp room)]
    exact Nat.le_refl _

theorem produce_left (inv : Inv size s) (room : s.cursor < s.next + size) (busy : s.producer ≠ .idle) :
    ∃ s' e, s.produce size = some (s', e) ∧ s'.producer.left < s.producer.left ∧ e ≠ .published false := by
  have order := inv.order
  have producing := inv.producing
  unfold produce
  cases here : s.producer with
  | idle => exact absurd here busy
  | publish item =>
    dsimp only
    split
    · exact ⟨_, _, rfl, Nat.lt_succ_self 3, by simp⟩
    · exact ⟨_, _, rfl, Nat.lt_of_succ_lt (Nat.lt_succ_self 3), by simp⟩
  | full item seq =>
    rw [here] at producing
    rcases producing with ⟨rfl, -⟩
    dsimp only
    rw [if_neg (by omega)]
    exact ⟨_, _, rfl, Nat.lt_succ_self 2, by simp⟩
  | write item seq => exact ⟨_, _, rfl, Nat.lt_succ_self 1, by simp⟩
  | store item seq => exact ⟨_, _, rfl, Nat.one_pos, by simp⟩
  | batch items done =>
    dsimp only
    split
    · rename_i more
      exact ⟨_, _, rfl, Nat.lt_succ_of_le (startWave_left more), by simp⟩
    · exact ⟨_, _, rfl, Nat.succ_pos _, by simp⟩
  | spin items done seq =>
    rw [here] at producing
    rcases producing with ⟨rfl, more, -⟩
    exact ⟨_, _, rfl, startWave_room more (by show s.cursor - s.next < size; omega), by simp⟩
  | wave items done seq take i =>
    rw [here] at producing
    rcases producing with ⟨-, -, bound, low, -⟩
    dsimp only
    split
    · rename_i inside
      have held : items[done + i]? = some (items.get ⟨done + i, by omega⟩) := List.getElem?_eq_getElem _
      refine ⟨_, _, by rw [held]; rfl, ?_, by simp⟩
      simp only [Producer.left, if_neg (show ¬take = 0 by omega)]
      omega
    · refine ⟨_, _, rfl, ?_, by simp⟩
      simp only [Producer.left]
      split <;> omega

end SpscRing

namespace MpscRing

variable {ι T : Type} [DecidableEq ι] {size : Nat} {s s' : MpscRing ι T} {e : Event T} {i : ι}

/-- Every cell between the consumer and `enqueue` that is not published belongs to a producer. -/
def Claimed (size : Nat) (s : MpscRing ι T) : Prop :=
  ∀ p, s.freed ≤ p → p < s.enqueue → s.seq (p % size) = p → ∃ i, (s.producers i).owned = some p

omit [DecidableEq ι] in
theorem create_claimed (size : Nat) (blank : T) : Claimed size (create blank : MpscRing ι T) := by
  intro p _ high
  exact absurd high (Nat.not_lt_zero p)

theorem setProducer_claimed {pc : Producer T} (claimed : Claimed size s) (same : pc.owned = (s.producers i).owned) :
    Claimed size (s.setProducer i pc) := by
  intro p low high turn
  rcases claimed p low high turn with ⟨j, owned⟩
  refine ⟨j, ?_⟩
  by_cases here : j = i
  · subst here
    simp only [setProducer, Function.update_self, same, owned]
  · simp only [setProducer, Function.update_of_ne here, owned]

theorem produce_claimed (power : ∃ k, size = 2 ^ k) (inv : Inv size s) {spurious : Bool} (claimed : Claimed size s)
    (taken : s.produce size i spurious = some (s', e)) : Claimed size s' := by
  have producing := inv.producing i
  have room := inv.room
  unfold produce at taken
  split at taken
  all_goals rename_i here; rw [here] at producing
  · cases taken
  · cases taken
    exact setProducer_claimed claimed (by rw [here]; rfl)
  · dsimp only at taken
    split at taken
    · cases taken
      exact setProducer_claimed claimed (by rw [here]; rfl)
    · split at taken <;> cases taken <;> exact setProducer_claimed claimed (by rw [here]; rfl)
  · split at taken
    · rename_i won
      cases taken
      rcases won with ⟨rfl, -⟩
      intro p low high turn
      by_cases last : p = s.enqueue
      · refine ⟨i, ?_⟩
        simp only [win, Function.update_self, last, Producer.owned]
      · have before : p < s.enqueue := by
          have bound : p < s.enqueue + 1 := high
          omega
        rcases claimed p low before turn with ⟨j, owned⟩
        have other : j ≠ i := by
          intro same
          rw [same, here] at owned
          cases owned
        refine ⟨j, ?_⟩
        simp only [win, Function.update_of_ne other, owned]
    · cases taken
      exact setProducer_claimed claimed (by rw [here]; rfl)
  · rename_i item pos
    cases taken
    have same : (Producer.publish item pos).owned = (s.producers i).owned := by
      rw [here]
      rfl
    exact setProducer_claimed claimed same
  · -- the cell is published and its owner lets it go
    rename_i item pos
    cases taken
    rcases producing with ⟨above, held, -, -⟩
    have below := inv.claimed_lt held
    intro p low high turn
    have bounds : s.freed ≤ p ∧ p < s.enqueue := ⟨low, high⟩
    simp only [publishCell, slotIndex_eq_mod power] at turn
    by_cases same : p % size = pos % size
    · rw [same, Function.update_self] at turn
      have equal := eq_of_mod_eq (f := s.freed) low (by omega) above (by omega) same
      omega
    · rw [Function.update_of_ne same] at turn
      rcases claimed p low high turn with ⟨j, owned⟩
      have other : j ≠ i := by
        intro same'
        rw [same', here] at owned
        cases owned
        exact same rfl
      refine ⟨j, ?_⟩
      simp only [publishCell, Function.update_of_ne other, owned]

theorem consume_claimed (power : ∃ k, size = 2 ^ k) (inv : Inv size s) (claimed : Claimed size s)
    (taken : s.consume size = some (s', e)) : Claimed size s' := by
  have consuming := inv.consuming
  have room := inv.room
  have frees : ∀ pc, Claimed size (s.freeCell size s.freed pc) := by
    intro pc p low high turn
    have above : s.freed + 1 ≤ p := low
    have below : p < s.enqueue := high
    have other : p % size ≠ s.freed % size := (mod_ne_of_lap (by omega) (by omega)).symm
    simp only [freeCell, slotIndex_eq_mod power, Function.update_of_ne other] at turn
    exact claimed p (Nat.le_of_succ_le above) below turn
  unfold consume at taken
  split at taken
  all_goals rename_i here; rw [here] at consuming
  · cases taken
  · cases taken
    exact claimed
  · split at taken <;> cases taken <;> exact claimed
  · cases taken
    exact claimed
  · cases taken
    rw [consuming.1]
    exact frees _
  · cases taken
    exact claimed
  · cases taken
    exact claimed
  · split at taken <;> cases taken <;> exact claimed
  · cases taken
    exact claimed
  · cases taken
    rw [consuming.1]
    exact frees _
  · split at taken <;> cases taken <;> exact claimed

theorem step_claimed (power : ∃ k, size = 2 ^ k) {a : Action ι T} (inv : Inv size s) (claimed : Claimed size s)
    (taken : step size a s = some (s', e)) : Claimed size s' := by
  cases a with
  | tryPublish i item =>
    simp only [step] at taken
    split at taken
    · rename_i idle
      cases taken
      exact setProducer_claimed claimed (by rw [idle]; rfl)
    · cases taken
  | producer i spurious => exact produce_claimed power inv claimed taken
  | tryConsume | consumeBatch | handlerRead =>
    simp only [step] at taken
    split at taken <;> cases taken
    exact claimed
  | consumer => exact consume_claimed power inv claimed taken

/-- When no producer is between its claim and its return, every claimed cell is published. -/
theorem Claimed.ready (claimed : Claimed size s) (inv : Inv size s) (free : ∀ i, (s.producers i).owned = none) {p : Nat}
    (low : s.freed ≤ p) (high : p < s.enqueue) : s.seq (p % size) = p + 1 := by
  have room := inv.room
  rcases inv.cell p low (by omega) with ⟨turn, -⟩ | ⟨ready, -⟩
  · rcases claimed p low high turn with ⟨i, owned⟩
    rw [free i] at owned
    cases owned
  · exact ready

def Consumer.left (enqueue dequeue : Nat) : Consumer T → Nat
  | .drain => 3 * (enqueue - dequeue) + 3
  | .checkNext pos _ => 3 * (enqueue - pos) + 2
  | .handle pos _ => 3 * (enqueue - pos) + 1
  | .handling pos _ => 3 * (enqueue - pos)
  | .finish _ _ => 1
  | _ => 0

def Fresh (s : MpscRing ι T) : Prop :=
  match s.consumer with
  | .finish pos _ => pos = s.enqueue
  | pc => pc.batch = true

omit [DecidableEq ι] in
theorem consume_enabled (size : Nat) (busy : s.consumer ≠ .idle) : ∃ s' e, s.consume size = some (s', e) := by
  unfold consume
  split
  · rename_i idle
    exact absurd idle busy
  all_goals first | exact ⟨_, _, rfl⟩ | (split <;> exact ⟨_, _, rfl⟩)

theorem consume_left (positive : 0 < size) (inv : Inv size s) (batch : s.consumer.batch = true)
    (taken : s.consume size = some (s', e)) :
    s'.consumer.left s'.enqueue s'.dequeue < s.consumer.left s.enqueue s.dequeue := by
  have consuming := inv.consuming
  unfold consume at taken
  split at taken
  all_goals rename_i here; rw [here] at batch consuming
  · cases batch
  · cases batch
  · cases batch
  · cases batch
  · cases batch
  · cases batch
  · cases taken
    rw [here]
    exact Nat.lt_succ_self _
  · split at taken <;> cases taken <;> rw [here] <;> simp only [Consumer.left] <;> omega
  · cases taken
    rw [here]
    exact Nat.lt_succ_self _
  · rcases consuming with ⟨rfl, -, ready, -⟩
    have low := inv.published_lt positive ready
    cases taken
    rw [here]
    simp only [freeCell, Consumer.left]
    omega
  · split at taken <;> cases taken <;> rw [here] <;> exact Nat.one_pos

theorem consume_fresh (power : ∃ k, size = 2 ^ k) (inv : Inv size s)
    (ready : ∀ p, s.freed ≤ p → p < s.enqueue → s.seq (p % size) = p + 1) (fresh : Fresh s)
    (taken : s.consume size = some (s', e)) :
    s'.consumer = .idle ∧ s'.dequeue = s'.enqueue ∨ Fresh s' := by
  have order := inv.order
  have consuming := inv.consuming
  unfold consume at taken
  split at taken
  all_goals rename_i here; rw [here] at consuming; simp only [Fresh, here] at fresh
  · cases fresh
  · cases fresh
  · cases fresh
  · cases fresh
  · cases fresh
  · cases fresh
  · cases taken
    exact .inr rfl
  · rcases consuming with ⟨rfl, -⟩
    rw [slotIndex_eq_mod power] at taken
    split at taken <;> cases taken
    · exact .inr rfl
    · rename_i behind
      refine .inr ?_
      have reached : ¬s.freed < s.enqueue := fun low => behind (ready s.freed (Nat.le_refl _) low)
      show s.freed = s.enqueue
      omega
  · cases taken
    exact .inr rfl
  · cases taken
    exact .inr rfl
  · rcases consuming with ⟨rfl, count, -⟩
    split at taken <;> cases taken
    · exact .inl ⟨rfl, fresh⟩
    · rename_i none
      refine .inl ⟨rfl, ?_⟩
      show s.dequeue = s.enqueue
      omega

end MpscRing

end Titan
