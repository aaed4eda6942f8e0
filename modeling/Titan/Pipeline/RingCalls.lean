import Titan.Pipeline.MpscRing

namespace Titan

namespace SpscRing

variable {T : Type} {size : Nat} {s s' : SpscRing T} {e : Event T}

def Producer.call : Producer T → Option (List T × Bool)
  | .idle => none
  | .publish item | .full item _ | .write item _ | .store item _ => some ([item], false)
  | .batch items _ | .spin items _ _ | .wave items _ _ _ _ => some (items, true)

def Consumer.batch : Consumer T → Bool
  | .drain | .avail _ | .handle _ _ _ | .handling _ _ _ | .release _ _ => true
  | _ => false

/-- What a step of the producer means for its caller. -/
inductive Produced (s s' : SpscRing T) : Event T → Prop
  | underway {e : Event T} (returns : ∀ ok, e ≠ .published ok) (batched : e ≠ .batchPublished)
      (call : s'.producer.call = s.producer.call) (calls : s'.calls = s.calls) : Produced s s' e
  | refused {item : T} (call : s.producer.call = some ([item], false)) (idle : s'.producer = .idle)
      (calls : s'.calls = s.calls) : Produced s s' (.published false)
  | published {item : T} (call : s.producer.call = some ([item], false)) (idle : s'.producer = .idle)
      (calls : s'.calls = s.calls ++ [item]) : Produced s s' (.published true)
  | batched {items : List T} (call : s.producer.call = some (items, true)) (idle : s'.producer = .idle)
      (calls : s'.calls = s.calls ++ items) : Produced s s' .batchPublished

inductive Consumed (s s' : SpscRing T) : Event T → Prop
  | silent (batch : s'.consumer.batch = true) (taken : s'.taken = s.taken) : Consumed s s' .silent
  | seen {item : T} (batch : s'.consumer.batch = true) (taken : s'.taken = s.taken ++ [item]) : Consumed s s' (.seen item)
  | drained {n : Nat} (idle : s'.consumer = .idle) (taken : s'.taken = s.taken) : Consumed s s' (.drained n)

structure ConsumerKept (s s' : SpscRing T) : Prop where
  taken : s'.taken = s.taken
  next : s'.next = s.next
  consumer : s'.consumer = s.consumer

structure ProducerKept (s s' : SpscRing T) : Prop where
  producer : s'.producer = s.producer
  calls : s'.calls = s.calls
  sent : s'.sent = s.sent
  cursor : s'.cursor = s.cursor

theorem startWave_call (size : Nat) (s : SpscRing T) (items : List T) (done seq : Nat) :
    (s.startWave size items done seq).producer.call = some (items, true) ∧
      (s.startWave size items done seq).calls = s.calls ∧ ConsumerKept s (s.startWave size items done seq) := by
  rw [startWave]
  split <;> exact ⟨rfl, rfl, rfl, rfl, rfl⟩

theorem produce_of_step (taken : step size .producer s = some (s', e)) : s.produce size = some (s', e) := by
  rwa [step] at taken

theorem produce_calls (taken : s.produce size = some (s', e)) : Produced s s' e ∧ ConsumerKept s s' := by
  unfold produce at taken
  split at taken
  all_goals rename_i here
  · cases taken
  · split at taken <;> cases taken <;>
      exact ⟨.underway (by simp) (by simp) (by rw [here]; rfl) rfl, rfl, rfl, rfl⟩
  · split at taken <;> cases taken
    · exact ⟨.refused (by rw [here]; rfl) rfl rfl, rfl, rfl, rfl⟩
    · exact ⟨.underway (by simp) (by simp) (by rw [here]; rfl) rfl, rfl, rfl, rfl⟩
  · cases taken
    exact ⟨.underway (by simp) (by simp) (by rw [here]; rfl) rfl, rfl, rfl, rfl⟩
  · cases taken
    exact ⟨.published (by rw [here]; rfl) rfl rfl, rfl, rfl, rfl⟩
  · split at taken
    · cases taken
      rename_i items done _
      rcases startWave_call size s items done s.cursor with ⟨call, calls, kept⟩
      exact ⟨.underway (by simp) (by simp) (by rw [call, here]; rfl) calls, kept⟩
    · cases taken
      exact ⟨.batched (by rw [here]; rfl) rfl rfl, rfl, rfl, rfl⟩
  · cases taken
    rename_i items done seq
    rcases startWave_call size { s with cachedConsumer := s.next } items done seq with ⟨call, calls, kept⟩
    exact ⟨.underway (by simp) (by simp) (by rw [call, here]; rfl) calls, kept.taken, kept.next, kept.consumer⟩
  · split at taken
    · simp only [Option.map_eq_some_iff] at taken
      rcases taken with ⟨item, -, stepped⟩
      cases stepped
      exact ⟨.underway (by simp) (by simp) (by rw [here]; rfl) rfl, rfl, rfl, rfl⟩
    · cases taken
      exact ⟨.underway (by simp) (by simp) (by rw [here]; rfl) rfl, rfl, rfl, rfl⟩

theorem consume_of_step (taken : step size .consumer s = some (s', e)) : s.consume size = some (s', e) := by
  rwa [step] at taken

theorem consume_batch (batch : s.consumer.batch = true) (taken : s.consume size = some (s', e)) :
    Consumed s s' e ∧ ProducerKept s s' := by
  unfold consume at taken
  split at taken
  all_goals rename_i here; rw [here] at batch
  · cases batch
  · cases batch
  · cases batch
  · cases batch
  · cases batch
  · cases taken
    exact ⟨.silent rfl rfl, rfl, rfl, rfl, rfl⟩
  · split at taken <;> cases taken
    · exact ⟨.drained rfl rfl, rfl, rfl, rfl, rfl⟩
    · exact ⟨.silent rfl rfl, rfl, rfl, rfl, rfl⟩
  · cases taken
    exact ⟨.seen rfl rfl, rfl, rfl, rfl, rfl⟩
  · split at taken <;> cases taken <;> exact ⟨.silent rfl rfl, rfl, rfl, rfl, rfl⟩
  · cases taken
    exact ⟨.drained rfl rfl, rfl, rfl, rfl, rfl⟩

theorem Inv.sent_eq (inv : Inv size s) (single : ∀ items, s.producer.call ≠ some (items, true)) : s.sent = s.calls := by
  have producing := inv.producing
  revert single producing
  cases s.producer with
  | idle | publish item =>
    intro _ producing
    exact producing
  | full item seq =>
    intro _ producing
    exact producing.2
  | write item seq =>
    intro _ producing
    exact producing.2.2
  | store item seq =>
    intro _ producing
    exact producing.2.2.2
  | batch items done | spin items done seq | wave items done seq take i =>
    intro single
    exact absurd rfl (single items)

theorem Inv.taken_all (inv : Inv size s) (idle : s.consumer = .idle) (level : s.next = s.cursor) : s.taken = s.sent := by
  have consuming := inv.consuming
  rw [idle] at consuming
  rw [show s.taken = s.sent.take s.next from consuming, level, ← inv.count, List.take_length]

end SpscRing

namespace MpscRing

variable {ι T : Type} [DecidableEq ι] {size : Nat} {s s' : MpscRing ι T} {e : Event T} {i : ι}

def Producer.call : Producer T → Option T
  | .idle => none
  | .load item | .check item _ | .claim item _ | .write item _ | .publish item _ => some item

def Consumer.batch : Consumer T → Bool
  | .drain | .checkNext _ _ | .handle _ _ | .handling _ _ | .finish _ _ => true
  | _ => false

inductive Produced (s s' : MpscRing ι T) (i : ι) : Event T → Prop
  | underway {e : Event T} (returns : ∀ ok, e ≠ .published ok) (call : (s'.producers i).call = (s.producers i).call)
      (calls : s'.calls i = s.calls i) : Produced s s' i e
  | refused (idle : s'.producers i = .idle) (calls : s'.calls i = s.calls i) : Produced s s' i (.published false)
  | published {item : T} (call : (s.producers i).call = some item) (idle : s'.producers i = .idle)
      (calls : s'.calls i = s.calls i ++ [item]) : Produced s s' i (.published true)

inductive Consumed (s s' : MpscRing ι T) : Event T → Prop
  | silent (batch : s'.consumer.batch = true) (taken : s'.taken = s.taken) : Consumed s s' .silent
  | seen {item : T} (batch : s'.consumer.batch = true) (taken : s'.taken = s.taken ++ [item]) : Consumed s s' (.seen item)
  | drained {n : Nat} (idle : s'.consumer = .idle) (taken : s'.taken = s.taken) : Consumed s s' (.drained n)

structure OthersKept (s s' : MpscRing ι T) (i : ι) : Prop where
  taken : s'.taken = s.taken
  dequeue : s'.dequeue = s.dequeue
  consumer : s'.consumer = s.consumer
  producers : ∀ j ≠ i, s'.producers j = s.producers j
  calls : ∀ j ≠ i, s'.calls j = s.calls j

structure ProducersKept (s s' : MpscRing ι T) : Prop where
  producers : s'.producers = s.producers
  calls : s'.calls = s.calls
  claimed : s'.claimed = s.claimed
  enqueue : s'.enqueue = s.enqueue

theorem setProducer_kept (s : MpscRing ι T) (i : ι) (pc : Producer T) : OthersKept s (s.setProducer i pc) i where
  taken := rfl
  dequeue := rfl
  consumer := rfl
  producers _ apart := Function.update_of_ne apart ..
  calls _ _ := rfl

theorem update_call {producers : ι → Producer T} {pc : Producer T} (set : producers = Function.update s.producers i pc)
    (same : pc.call = (s.producers i).call) : (producers i).call = (s.producers i).call := by
  rw [set, Function.update_self, same]

theorem produce_calls {spurious : Bool} (taken : s.produce size i spurious = some (s', e)) :
    Produced s s' i e ∧ OthersKept s s' i := by
  unfold produce at taken
  split at taken
  all_goals rename_i here
  · cases taken
  · cases taken
    exact ⟨.underway (by simp) (update_call rfl (by rw [here]; rfl)) rfl, setProducer_kept s i _⟩
  · dsimp only at taken
    split at taken
    · cases taken
      exact ⟨.underway (by simp) (update_call rfl (by rw [here]; rfl)) rfl, setProducer_kept s i _⟩
    · split at taken <;> cases taken
      · exact ⟨.refused (Function.update_self ..) rfl, setProducer_kept s i _⟩
      · exact ⟨.underway (by simp) (update_call rfl (by rw [here]; rfl)) rfl, setProducer_kept s i _⟩
  · split at taken <;> cases taken
    · exact ⟨.underway (by simp) (update_call rfl (by rw [here]; rfl)) rfl, rfl, rfl, rfl,
        fun j apart => Function.update_of_ne apart .., fun j _ => rfl⟩
    · exact ⟨.underway (by simp) (update_call rfl (by rw [here]; rfl)) rfl, setProducer_kept s i _⟩
  · cases taken
    exact ⟨.underway (by simp) (update_call rfl (by rw [here]; rfl)) rfl, rfl, rfl, rfl,
      fun j apart => Function.update_of_ne apart .., fun j _ => rfl⟩
  · cases taken
    refine ⟨.published (by rw [here]; rfl) (Function.update_self ..) (Function.update_self ..), rfl, rfl, rfl,
      fun j apart => Function.update_of_ne apart .., fun j apart => Function.update_of_ne apart ..⟩

omit [DecidableEq ι] in
theorem consume_batch (batch : s.consumer.batch = true) (taken : s.consume size = some (s', e)) :
    Consumed s s' e ∧ ProducersKept s s' := by
  unfold consume at taken
  split at taken
  all_goals rename_i here; rw [here] at batch
  · cases batch
  · cases batch
  · cases batch
  · cases batch
  · cases batch
  · cases batch
  · cases taken
    exact ⟨.silent rfl rfl, rfl, rfl, rfl, rfl⟩
  · split at taken <;> cases taken <;> exact ⟨.silent rfl rfl, rfl, rfl, rfl, rfl⟩
  · cases taken
    exact ⟨.seen rfl rfl, rfl, rfl, rfl, rfl⟩
  · cases taken
    exact ⟨.silent rfl rfl, rfl, rfl, rfl, rfl⟩
  · split at taken <;> cases taken <;> exact ⟨.drained rfl rfl, rfl, rfl, rfl, rfl⟩

theorem Inv.taken_all (inv : Inv size s) (idle : s.consumer = .idle) (level : s.dequeue = s.enqueue) :
    s.taken = s.items := by
  have consuming := inv.consuming
  rw [idle] at consuming
  have length : s.items.length = s.enqueue := by rw [items, List.length_map, inv.count]
  rw [consuming.2, ← consuming.1, level, ← length, List.take_length]

theorem Inv.pushed_idle (inv : Inv size s) (idle : s.producers i = .idle) :
    (s.claimed.filter fun c => c.1 = i).map Prod.snd = s.calls i := by
  rw [inv.pushed i, idle]
  exact List.append_nil _

end MpscRing

end Titan
