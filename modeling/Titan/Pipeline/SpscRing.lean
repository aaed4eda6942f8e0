import Titan.Data.Transition
import Mathlib.Tactic.Common
import Mathlib.Algebra.Ring.Nat

namespace Titan

open Transition

/-- `seq & MASK` for a ring of `size` slots. -/
def slotIndex (size seq : Nat) : Nat := seq &&& (size - 1)

theorem slotIndex_eq_mod {size : Nat} (power : ∃ k, size = 2 ^ k) (seq : Nat) : slotIndex size seq = seq % size := by
  obtain ⟨k, rfl⟩ := power
  exact Nat.and_two_pow_sub_one_eq_mod seq k

theorem mod_ne_of_lap {size p q : Nat} (before : p < q) (lap : q < p + size) : p % size ≠ q % size := by
  intro same
  have multiple := Nat.sub_mod_eq_zero_of_mod_eq same.symm
  rw [Nat.mod_eq_of_lt (by omega)] at multiple
  omega

namespace SpscRing

/-- Where the producer stands: `publish` to `store` are `try_publish`, the rest is `publish_batch`. -/
inductive Producer (T : Type)
  | idle
  | publish (item : T)
  | full (item : T) (seq : Nat)
  | write (item : T) (seq : Nat)
  | store (item : T) (seq : Nat)
  | batch (items : List T) (done : Nat)
  | spin (items : List T) (done seq : Nat)
  | wave (items : List T) (done seq take i : Nat)

/-- Where the consumer stands: `consume` to `free` are `try_consume`, the rest is `consume_batch`. -/
inductive Consumer (T : Type)
  | idle
  | consume
  | empty (seq : Nat)
  | copy (seq : Nat)
  | free (seq : Nat) (out : T)
  | drain
  | avail (start : Nat)
  | handle (start seq avail : Nat)
  | handling (start seq avail : Nat)
  | release (start seq : Nat)

inductive Action (T : Type)
  | tryPublish (item : T)
  | publishBatch (items : List T)
  | producer
  | tryConsume
  | consumeBatch
  | consumer
  | handlerRead

inductive Event (T : Type)
  | silent
  | stored (idx : Nat)
  | published (ok : Bool)
  | batchPublished
  | consumed (out : Option T)
  | seen (item : T)
  | drained (n : Nat)

end SpscRing

open SpscRing

/-- The ring with its two threads. `sent`, `calls` and `taken` are history: the items published,
    those of the completed publishing calls, and those the consumer was handed. -/
structure SpscRing (T : Type) where
  slots : Nat → T
  cursor : Nat
  cachedConsumer : Nat
  next : Nat
  cachedCursor : Nat
  producer : Producer T
  consumer : Consumer T
  sent : List T
  calls : List T
  taken : List T

namespace SpscRing

variable {T : Type}

def create (blank : T) : SpscRing T where
  slots := fun _ => blank
  cursor := 0
  cachedConsumer := 0
  next := 0
  cachedCursor := 0
  producer := .idle
  consumer := .idle
  sent := []
  calls := []
  taken := []

/-- The check of `inflight` and, once there is room, the cut of a wave. -/
def startWave (size : Nat) (s : SpscRing T) (items : List T) (done seq : Nat) : SpscRing T :=
  let inflight := seq - s.cachedConsumer
  if inflight ≥ size then { s with producer := .spin items done seq }
  else
    let freeslots := size - inflight
    let remain := items.length - done
    let take := if remain < freeslots then remain else freeslots
    { s with producer := .wave items done seq take 0 }

def waveSlot (size seq take i : Nat) : Nat :=
  let base := slotIndex size seq
  let first := if base + take ≤ size then take else size - base
  if i < first then base + i else i - first

def produce (size : Nat) (s : SpscRing T) : Option (SpscRing T × Event T) :=
  match s.producer with
  | .idle => none
  | .publish item =>
    if s.cursor - s.cachedConsumer ≥ size then some ({ s with producer := .full item s.cursor }, .silent)
    else some ({ s with producer := .write item s.cursor }, .silent)
  | .full item seq =>
    if seq - s.next ≥ size then some ({ s with cachedConsumer := s.next, producer := .idle }, .published false)
    else some ({ s with cachedConsumer := s.next, producer := .write item seq }, .silent)
  | .write item seq =>
    some ({ s with slots := Function.update s.slots (slotIndex size seq) item, producer := .store item seq },
      .stored (slotIndex size seq))
  | .store item seq =>
    some ({ s with cursor := seq + 1, producer := .idle, sent := s.sent ++ [item], calls := s.calls ++ [item] },
      .published true)
  | .batch items done =>
    if done < items.length then some (s.startWave size items done s.cursor, .silent)
    else some ({ s with producer := .idle, calls := s.calls ++ items }, .batchPublished)
  | .spin items done seq =>
    some (({ s with cachedConsumer := s.next } : SpscRing T).startWave size items done seq, .silent)
  | .wave items done seq take i =>
    if i < take then
      items[done + i]?.map fun item =>
        ({ s with
          slots := Function.update s.slots (waveSlot size seq take i) item
          producer := .wave items done seq take (i + 1) }, .stored (waveSlot size seq take i))
    else
      some ({ s with
        cursor := seq + take
        producer := .batch items (done + take)
        sent := s.sent ++ (items.drop done).take take }, .silent)

def consume (size : Nat) (s : SpscRing T) : Option (SpscRing T × Event T) :=
  match s.consumer with
  | .idle => none
  | .consume =>
    if s.next ≥ s.cachedCursor then some ({ s with consumer := .empty s.next }, .silent)
    else some ({ s with consumer := .copy s.next }, .silent)
  | .empty seq =>
    if seq ≥ s.cursor then some ({ s with cachedCursor := s.cursor, consumer := .idle }, .consumed none)
    else some ({ s with cachedCursor := s.cursor, consumer := .copy seq }, .silent)
  | .copy seq =>
    some ({ s with
      consumer := .free seq (s.slots (slotIndex size seq))
      taken := s.taken ++ [s.slots (slotIndex size seq)] }, .silent)
  | .free seq out => some ({ s with next := seq + 1, consumer := .idle }, .consumed (some out))
  | .drain => some ({ s with consumer := .avail s.next }, .silent)
  | .avail start =>
    if start = s.cursor then some ({ s with consumer := .idle }, .drained 0)
    else some ({ s with cachedCursor := s.cursor, consumer := .handle start start s.cursor }, .silent)
  | .handle start seq avail =>
    some ({ s with
      consumer := .handling start seq avail
      taken := s.taken ++ [s.slots (slotIndex size seq)] }, .seen (s.slots (slotIndex size seq)))
  | .handling start seq avail =>
    if seq + 1 ≠ avail then some ({ s with consumer := .handle start (seq + 1) avail }, .silent)
    else some ({ s with consumer := .release start (seq + 1) }, .silent)
  | .release start seq => some ({ s with next := seq, consumer := .idle }, .drained (seq - start))

/-- The steps of the two threads, one access to a cursor or a slot each. The handler of
    `consume_batch` may read its slot as often as it likes before it returns. -/
def step (size : Nat) (a : Action T) (s : SpscRing T) : Option (SpscRing T × Event T) :=
  match a, s.producer, s.consumer with
  | .tryPublish item, .idle, _ => some ({ s with producer := .publish item }, .silent)
  | .publishBatch items, .idle, _ => some ({ s with producer := .batch items 0 }, .silent)
  | .producer, _, _ => s.produce size
  | .tryConsume, _, .idle => some ({ s with consumer := .consume }, .silent)
  | .consumeBatch, _, .idle => some ({ s with consumer := .drain }, .silent)
  | .consumer, _, _ => s.consume size
  | .handlerRead, _, .handling _ seq _ => some (s, .seen (s.slots (slotIndex size seq)))
  | _, _, _ => none

def Producing (size : Nat) (s : SpscRing T) : Producer T → Prop
  | .idle | .publish _ => s.sent = s.calls
  | .full _ seq => seq = s.cursor ∧ s.sent = s.calls
  | .write _ seq => seq = s.cursor ∧ seq < s.cachedConsumer + size ∧ s.sent = s.calls
  | .store item seq =>
    seq = s.cursor ∧ seq < s.cachedConsumer + size ∧ s.slots (seq % size) = item ∧ s.sent = s.calls
  | .batch items done => done ≤ items.length ∧ s.sent = s.calls ++ items.take done
  | .spin items done seq => seq = s.cursor ∧ done < items.length ∧ s.sent = s.calls ++ items.take done
  | .wave items done seq take i =>
    seq = s.cursor ∧ seq + take ≤ s.cachedConsumer + size ∧ done + take ≤ items.length ∧ i ≤ take ∧
      take ≤ size ∧ s.sent = s.calls ++ items.take done ∧
      ∀ k < i, some (s.slots ((seq + k) % size)) = items[done + k]?

def Consuming (s : SpscRing T) : Consumer T → Prop
  | .idle | .consume | .drain => s.taken = s.sent.take s.next
  | .empty seq | .avail seq => seq = s.next ∧ s.taken = s.sent.take s.next
  | .copy seq => seq = s.next ∧ seq < s.cursor ∧ s.taken = s.sent.take seq
  | .free seq out => seq = s.next ∧ seq < s.cursor ∧ s.taken = s.sent.take (seq + 1) ∧ s.sent[seq]? = some out
  | .handle start seq avail =>
    start = s.next ∧ start ≤ seq ∧ seq < avail ∧ avail ≤ s.cursor ∧ s.taken = s.sent.take seq
  | .handling start seq avail =>
    start = s.next ∧ start ≤ seq ∧ seq < avail ∧ avail ≤ s.cursor ∧ s.taken = s.sent.take (seq + 1)
  | .release start seq => start = s.next ∧ start < seq ∧ seq ≤ s.cursor ∧ s.taken = s.sent.take seq

structure Inv (size : Nat) (s : SpscRing T) : Prop where
  order : s.next ≤ s.cursor
  room : s.cursor ≤ s.next + size
  count : s.sent.length = s.cursor
  staleNext : s.cachedConsumer ≤ s.next
  staleCursor : s.cachedCursor ≤ s.cursor
  stored : ∀ p, s.next ≤ p → p < s.cursor → some (s.slots (p % size)) = s.sent[p]?
  producing : Producing size s s.producer
  consuming : Consuming s s.consumer

theorem create_inv (size : Nat) (blank : T) : Inv size (create blank) := by
  refine ⟨Nat.le_refl 0, Nat.zero_le _, rfl, Nat.le_refl 0, Nat.le_refl 0, ?_, rfl, rfl⟩
  intro p _ high
  exact absurd high (Nat.not_lt_zero p)

variable {size : Nat} {s s' : SpscRing T} {e : Event T}

theorem waveSlot_eq_mod (power : ∃ k, size = 2 ^ k) {seq take i : Nat} (fits : take ≤ size) (low : i < take) :
    waveSlot size seq take i = (seq + i) % size := by
  have positive : 0 < size := by omega
  have base := Nat.mod_lt seq positive
  simp only [waveSlot, slotIndex_eq_mod power]
  rw [← Nat.mod_add_mod seq size i]
  generalize seq % size = b at base ⊢
  by_cases whole : b + take ≤ size
  · rw [if_pos whole, if_pos low, Nat.mod_eq_of_lt (by omega)]
  · rw [if_neg whole]
    by_cases first : i < size - b
    · rw [if_pos first, Nat.mod_eq_of_lt (by omega)]
    · rw [if_neg first, Nat.mod_eq_sub_mod (by omega), Nat.mod_eq_of_lt (by omega)]
      omega

theorem Inv.stored_update (inv : Inv size s) {q : Nat} (ahead : s.cursor ≤ q) (free : q < s.cachedConsumer + size)
    (item : T) (p : Nat) (low : s.next ≤ p) (high : p < s.cursor) :
    some (Function.update s.slots (q % size) item (p % size)) = s.sent[p]? := by
  have lag := inv.staleNext
  rw [Function.update_of_ne (mod_ne_of_lap (by omega) (by omega))]
  exact inv.stored p low high

theorem Consuming.extend {pc : Consumer T} (consuming : Consuming s pc) (inv : Inv size s) (more : List T)
    (next : s'.next = s.next) (taken : s'.taken = s.taken) (sent : s'.sent = s.sent ++ more)
    (cursor : s.cursor ≤ s'.cursor) : Consuming s' pc := by
  have order := inv.order
  have count := inv.count
  have longer : ∀ k ≤ s.cursor, (s.sent ++ more).take k = s.sent.take k := fun k bound =>
    List.take_append_of_le_length (by omega)
  cases pc with
  | idle | consume | drain => simpa only [Consuming, next, taken, sent, longer _ order] using consuming
  | empty seq | avail seq => simpa only [Consuming, next, taken, sent, longer _ order] using consuming
  | copy seq =>
    obtain ⟨here, low, same⟩ := consuming
    simp only [Consuming, next, taken, sent, longer seq (by omega)]
    exact ⟨here, by omega, same⟩
  | free seq out =>
    obtain ⟨here, low, same, held⟩ := consuming
    simp only [Consuming, next, taken, sent, longer (seq + 1) (by omega)]
    exact ⟨here, by omega, same, by rw [List.getElem?_append_left (by omega)]; exact held⟩
  | handle start seq avail =>
    obtain ⟨here, low, high, bound, same⟩ := consuming
    simp only [Consuming, next, taken, sent, longer seq (by omega)]
    exact ⟨here, low, high, by omega, same⟩
  | handling start seq avail =>
    obtain ⟨here, low, high, bound, same⟩ := consuming
    simp only [Consuming, next, taken, sent, longer (seq + 1) (by omega)]
    exact ⟨here, low, high, by omega, same⟩
  | release start seq =>
    obtain ⟨here, low, bound, same⟩ := consuming
    simp only [Consuming, next, taken, sent, longer seq bound]
    exact ⟨here, low, by omega, same⟩

theorem Inv.moveProducer (inv : Inv size s) (pc : Producer T) {cached : Nat} {calls : List T}
    (stale : cached ≤ s.next) (producing : Producing size { s with cachedConsumer := cached, calls := calls } pc) :
    Inv size { s with cachedConsumer := cached, calls := calls, producer := pc } := by
  refine ⟨inv.order, inv.room, inv.count, stale, inv.staleCursor, inv.stored, ?_, ?_⟩
  · cases pc <;> exact producing
  · exact inv.consuming.extend inv [] rfl rfl (List.append_nil _).symm (Nat.le_refl _)

theorem Inv.startWave (inv : Inv size s) {items : List T} {done seq : Nat} (here : seq = s.cursor)
    (more : done < items.length) (sent : s.sent = s.calls ++ items.take done) :
    Inv size (s.startWave size items done seq) := by
  have order := inv.order
  have lag := inv.staleNext
  simp only [SpscRing.startWave]
  split
  · exact inv.moveProducer _ lag ⟨here, more, sent⟩
  · rename_i space
    refine inv.moveProducer _ lag ⟨here, ?_, ?_, Nat.zero_le _, ?_, sent, fun k low => absurd low (Nat.not_lt_zero k)⟩
    · show _ ≤ s.cachedConsumer + size
      split <;> omega
    · split <;> omega
    · split <;> omega

theorem Inv.advance (inv : Inv size s) (more : List T) (pc : Producer T) (calls : List T)
    (fits : s.cursor + more.length ≤ s.cachedConsumer + size)
    (written : ∀ k < more.length, some (s.slots ((s.cursor + k) % size)) = more[k]?)
    (producing : Producing size
      { s with cursor := s.cursor + more.length, sent := s.sent ++ more, calls := calls, producer := pc } pc) :
    Inv size { s with cursor := s.cursor + more.length, sent := s.sent ++ more, calls := calls, producer := pc } := by
  have order := inv.order
  have lag := inv.staleNext
  have count := inv.count
  have stale := inv.staleCursor
  refine ⟨Nat.le_add_right_of_le order, ?_, ?_, lag, Nat.le_add_right_of_le stale, ?_, producing, ?_⟩
  · show s.cursor + more.length ≤ s.next + size
    omega
  · simp [count]
  · intro p low high
    show some (s.slots (p % size)) = (s.sent ++ more)[p]?
    by_cases former : p < s.cursor
    · rw [List.getElem?_append_left (by omega)]
      exact inv.stored p low former
    · obtain ⟨k, rfl⟩ : ∃ k, p = s.cursor + k := ⟨p - s.cursor, by omega⟩
      have new := written k (by simp only at high; omega)
      rw [List.getElem?_append_right (by omega), count, Nat.add_sub_cancel_left]
      exact new
  · exact inv.consuming.extend inv more rfl rfl rfl (Nat.le_add_right _ _)

theorem Inv.writeSlot (inv : Inv size s) {q : Nat} {item : T} {pc : Producer T} (ahead : s.cursor ≤ q)
    (free : q < s.cachedConsumer + size)
    (producing : Producing size { s with slots := Function.update s.slots (q % size) item } pc) :
    Inv size { s with slots := Function.update s.slots (q % size) item, producer := pc } := by
  refine ⟨inv.order, inv.room, inv.count, inv.staleNext, inv.staleCursor, ?_, ?_, ?_⟩
  · exact inv.stored_update ahead free item
  · cases pc <;> exact producing
  · exact inv.consuming.extend inv [] rfl rfl (List.append_nil _).symm (Nat.le_refl _)

theorem produce_inv (power : ∃ k, size = 2 ^ k) (inv : Inv size s) (taken : s.produce size = some (s', e)) :
    Inv size s' := by
  have order := inv.order
  have lag := inv.staleNext
  have producing := inv.producing
  unfold produce at taken
  split at taken
  all_goals rename_i here; rw [here] at producing
  · cases taken
  · split at taken <;> cases taken
    · exact inv.moveProducer _ lag ⟨rfl, producing⟩
    · exact inv.moveProducer _ lag ⟨rfl, by show s.cursor < s.cachedConsumer + size; omega, producing⟩
  · obtain ⟨rfl, sent⟩ := producing
    split at taken <;> cases taken
    · exact inv.moveProducer _ (Nat.le_refl _) sent
    · exact inv.moveProducer _ (Nat.le_refl _) ⟨rfl, by show s.cursor < s.next + size; omega, sent⟩
  · obtain ⟨rfl, free, sent⟩ := producing
    cases taken
    rw [slotIndex_eq_mod power]
    exact inv.writeSlot (Nat.le_refl _) free ⟨rfl, free, Function.update_self _ _ _, sent⟩
  · obtain ⟨rfl, free, written, sent⟩ := producing
    cases taken
    refine inv.advance [_] .idle _ free ?_ (by simp [Producing, sent])
    intro k low
    obtain rfl : k = 0 := by simpa using low
    simp [written]
  · obtain ⟨bound, sent⟩ := producing
    split at taken
    · cases taken
      exact inv.startWave rfl ‹_› sent
    · cases taken
      rename_i finished
      rw [List.take_of_length_le (by omega)] at sent
      exact inv.moveProducer _ lag sent
  · obtain ⟨rfl, more, sent⟩ := producing
    cases taken
    rename_i items done
    have fresh : Producing size { s with cachedConsumer := s.next } (.spin items done s.cursor) := ⟨rfl, more, sent⟩
    exact (inv.moveProducer _ (Nat.le_refl _) fresh).startWave rfl more sent
  · obtain ⟨rfl, free, bound, done, fits, sent, written⟩ := producing
    split at taken
    · rename_i low
      simp only [Option.map_eq_some_iff] at taken
      obtain ⟨item, held, stepped⟩ := taken
      cases stepped
      rw [waveSlot_eq_mod power fits low]
      refine inv.writeSlot (Nat.le_add_right _ _) (by omega) ⟨rfl, free, bound, low, fits, sent, ?_⟩
      intro k earlier
      rcases Nat.lt_succ_iff_lt_or_eq.mp earlier with earlier | rfl
      · show some (Function.update s.slots _ item _) = _
        rw [Function.update_of_ne (mod_ne_of_lap (by omega) (by omega))]
        exact written k earlier
      · show some (Function.update s.slots _ item _) = _
        rw [held, Function.update_self]
    · cases taken
      rename_i items last take i finished
      have length : ((items.drop last).take take).length = take := by
        rw [List.length_take, List.length_drop]
        omega
      have published := inv.advance ((items.drop last).take take) (.batch items (last + take)) s.calls
        (by omega) ?_ ⟨bound, ?_⟩
      · rwa [length] at published
      · intro k low
        rw [List.getElem?_take_of_lt (by omega), List.getElem?_drop]
        exact written k (by omega)
      · show s.sent ++ _ = _
        rw [sent, List.append_assoc, List.take_add]

theorem Producing.congr {pc : Producer T} (producing : Producing size s pc) (slots : s'.slots = s.slots)
    (cursor : s'.cursor = s.cursor) (cached : s'.cachedConsumer = s.cachedConsumer) (sent : s'.sent = s.sent)
    (calls : s'.calls = s.calls) : Producing size s' pc := by
  cases pc <;> simpa only [Producing, slots, cursor, cached, sent, calls] using producing

theorem Inv.moveConsumer (inv : Inv size s) (pc : Consumer T) {cached : Nat} {taken : List T}
    (stale : cached ≤ s.cursor) (consuming : Consuming { s with cachedCursor := cached, taken := taken } pc) :
    Inv size { s with cachedCursor := cached, taken := taken, consumer := pc } := by
  refine ⟨inv.order, inv.room, inv.count, inv.staleNext, stale, inv.stored, ?_, ?_⟩
  · exact inv.producing.congr rfl rfl rfl rfl rfl
  · cases pc <;> exact consuming

theorem Inv.releaseTo (inv : Inv size s) {seq : Nat} (low : s.next ≤ seq) (high : seq ≤ s.cursor)
    (taken : s.taken = s.sent.take seq) : Inv size { s with next := seq, consumer := .idle } := by
  have room := inv.room
  refine ⟨high, ?_, inv.count, Nat.le_trans inv.staleNext low, inv.staleCursor, ?_, ?_, taken⟩
  · show s.cursor ≤ seq + size
    omega
  · intro p above below
    exact inv.stored p (Nat.le_trans low above) below
  · exact inv.producing.congr rfl rfl rfl rfl rfl

theorem Inv.slot (inv : Inv size s) (power : ∃ k, size = 2 ^ k) {seq : Nat} (low : s.next ≤ seq)
    (high : seq < s.cursor) : s.sent[seq]? = some (s.slots (slotIndex size seq)) := by
  rw [slotIndex_eq_mod power]
  exact (inv.stored seq low high).symm

theorem Inv.take_succ (inv : Inv size s) (power : ∃ k, size = 2 ^ k) {seq : Nat} (low : s.next ≤ seq)
    (high : seq < s.cursor) (taken : s.taken = s.sent.take seq) :
    s.taken ++ [s.slots (slotIndex size seq)] = s.sent.take (seq + 1) := by
  rw [List.take_add_one, inv.slot power low high, taken]
  rfl

theorem consume_inv (power : ∃ k, size = 2 ^ k) (inv : Inv size s) (taken : s.consume size = some (s', e)) :
    Inv size s' := by
  have order := inv.order
  have stale := inv.staleCursor
  have consuming := inv.consuming
  unfold consume at taken
  split at taken
  all_goals rename_i here; rw [here] at consuming
  · cases taken
  · split at taken <;> cases taken
    · exact inv.moveConsumer _ stale ⟨rfl, consuming⟩
    · exact inv.moveConsumer _ stale ⟨rfl, by show s.next < s.cursor; omega, consuming⟩
  · obtain ⟨rfl, same⟩ := consuming
    split at taken <;> cases taken
    · exact inv.moveConsumer _ (Nat.le_refl _) same
    · exact inv.moveConsumer _ (Nat.le_refl _) ⟨rfl, by show s.next < s.cursor; omega, same⟩
  · obtain ⟨rfl, high, same⟩ := consuming
    cases taken
    exact inv.moveConsumer _ stale
      ⟨rfl, high, inv.take_succ power (Nat.le_refl _) high same, inv.slot power (Nat.le_refl _) high⟩
  · obtain ⟨rfl, high, same, _⟩ := consuming
    cases taken
    exact inv.releaseTo (Nat.le_add_right _ _) high same
  · cases taken
    exact inv.moveConsumer _ stale ⟨rfl, consuming⟩
  · obtain ⟨rfl, same⟩ := consuming
    split at taken <;> cases taken
    · exact inv.moveConsumer _ stale same
    · exact inv.moveConsumer _ (Nat.le_refl _)
        ⟨rfl, Nat.le_refl _, by show s.next < s.cursor; omega, Nat.le_refl _, same⟩
  · obtain ⟨rfl, low, high, bound, same⟩ := consuming
    cases taken
    exact inv.moveConsumer _ stale ⟨rfl, low, high, bound, inv.take_succ power low (by omega) same⟩
  · obtain ⟨rfl, low, high, bound, same⟩ := consuming
    split at taken <;> cases taken
    · exact inv.moveConsumer _ stale ⟨rfl, by omega, by omega, bound, same⟩
    · exact inv.moveConsumer _ stale ⟨rfl, by show s.next < _; omega, by show _ ≤ s.cursor; omega, same⟩
  · obtain ⟨rfl, low, bound, same⟩ := consuming
    cases taken
    exact inv.releaseTo (Nat.le_of_lt low) bound same

theorem step_inv (power : ∃ k, size = 2 ^ k) {a : Action T} (inv : Inv size s)
    (taken : step size a s = some (s', e)) : Inv size s' := by
  have producing := inv.producing
  have consuming := inv.consuming
  unfold step at taken
  split at taken
  · cases taken
    rename_i here
    rw [here] at producing
    exact inv.moveProducer _ inv.staleNext producing
  · cases taken
    rename_i here
    rw [here] at producing
    exact inv.moveProducer _ inv.staleNext ⟨Nat.zero_le _, by simpa [Producing] using producing⟩
  · exact produce_inv power inv taken
  · cases taken
    rename_i here
    rw [here] at consuming
    exact inv.moveConsumer _ inv.staleCursor consuming
  · cases taken
    rename_i here
    rw [here] at consuming
    exact inv.moveConsumer _ inv.staleCursor consuming
  · exact consume_inv power inv taken
  · cases taken
    exact inv
  · cases taken

theorem reachable_inv (power : ∃ k, size = 2 ^ k) {blank : T} (reach : Reachable (step size) (create blank) s) :
    Inv size s :=
  reach.invariant (create_inv size blank) fun _ _ _ _ inv taken => step_inv power inv taken

/-- What a step of the ring may show and write. -/
structure Served (size : Nat) (s s' : SpscRing T) (e : Event T) : Prop where
  clear : ∀ idx, e = .stored idx → ∀ p, s.next ≤ p → p < s.cursor → p % size ≠ idx
  refused : e = .published false → s.cursor = s.next + size
  accepted : e = .published true → ∃ item seq, s.producer = .store item seq ∧ s'.sent = s.sent ++ [item]
  batched : e = .batchPublished → ∃ items done, s.producer = .batch items done ∧ s'.sent = s.calls ++ items
  empty : e = .consumed none → s.cursor = s.next
  delivered : ∀ out, e = .consumed (some out) → s'.taken.getLast? = some out
  seen : ∀ item, e = .seen item → s'.taken.getLast? = some item
  handled : ∀ n, e = .drained n → s'.next = s.next + n

theorem Served.silent : Served size s s' .silent := by
  constructor <;> simp

theorem produce_served (power : ∃ k, size = 2 ^ k) (inv : Inv size s) (taken : s.produce size = some (s', e)) :
    Served size s s' e := by
  have order := inv.order
  have room := inv.room
  have lag := inv.staleNext
  have producing := inv.producing
  unfold produce at taken
  split at taken
  all_goals rename_i here; rw [here] at producing
  · cases taken
  · split at taken <;> cases taken <;> exact .silent
  · obtain ⟨rfl, sent⟩ := producing
    split at taken <;> cases taken
    · constructor <;> simp
      omega
    · exact .silent
  · obtain ⟨rfl, free, sent⟩ := producing
    cases taken
    constructor <;> simp
    intro p low high
    rw [slotIndex_eq_mod power]
    exact mod_ne_of_lap high (by omega)
  · cases taken
    constructor <;> simp [here]
  · obtain ⟨bound, sent⟩ := producing
    split at taken
    · cases taken
      exact .silent
    · cases taken
      rw [List.take_of_length_le (by omega)] at sent
      constructor <;> simp [here, sent]
  · cases taken
    exact .silent
  · obtain ⟨rfl, free, bound, done, fits, sent, written⟩ := producing
    split at taken
    · rename_i low
      simp only [Option.map_eq_some_iff] at taken
      obtain ⟨item, held, stepped⟩ := taken
      cases stepped
      rw [waveSlot_eq_mod power fits low]
      constructor <;> simp
      intro p above below
      exact mod_ne_of_lap (by omega) (by omega)
    · cases taken
      exact .silent

theorem consume_served (power : ∃ k, size = 2 ^ k) (inv : Inv size s) (taken : s.consume size = some (s', e)) :
    Served size s s' e := by
  have order := inv.order
  have consuming := inv.consuming
  unfold consume at taken
  split at taken
  all_goals rename_i here; rw [here] at consuming
  · cases taken
  · split at taken <;> cases taken <;> exact .silent
  · obtain ⟨rfl, same⟩ := consuming
    split at taken <;> cases taken
    · constructor <;> simp
      omega
    · exact .silent
  · cases taken
    exact .silent
  · obtain ⟨rfl, high, same, held⟩ := consuming
    cases taken
    have last : s.taken.getLast? = s.sent[s.next]? := by
      rw [same, List.take_add_one, held]
      simp
    constructor <;> simp [last, held]
  · cases taken
    exact .silent
  · obtain ⟨rfl, same⟩ := consuming
    split at taken <;> cases taken
    · constructor <;> simp
    · exact .silent
  · cases taken
    constructor <;> simp
  · split at taken <;> cases taken <;> exact .silent
  · obtain ⟨rfl, low, bound, same⟩ := consuming
    cases taken
    constructor <;> simp
    omega

theorem step_served (power : ∃ k, size = 2 ^ k) {a : Action T} (inv : Inv size s)
    (taken : step size a s = some (s', e)) : Served size s s' e := by
  unfold step at taken
  split at taken
  · cases taken
    exact .silent
  · cases taken
    exact .silent
  · exact produce_served power inv taken
  · cases taken
    exact .silent
  · cases taken
    exact .silent
  · exact consume_served power inv taken
  · cases taken
    rename_i start seq avail here
    have consuming := inv.consuming
    rw [here] at consuming
    obtain ⟨rfl, low, high, bound, same⟩ := consuming
    have held := inv.slot power low (by omega)
    have last : s.taken.getLast? = s.sent[seq]? := by
      rw [same, List.take_add_one, held]
      simp
    constructor <;> simp [last, held]
  · cases taken

theorem Inv.taken_of_sent (inv : Inv size s) : s.taken <+: s.sent := by
  have consuming := inv.consuming
  have taken : ∃ k, s.taken = s.sent.take k := by
    revert consuming
    cases s.consumer <;> intro consuming
    case idle | consume | drain => exact ⟨_, consuming⟩
    case empty | avail => exact ⟨_, consuming.2⟩
    case copy => exact ⟨_, consuming.2.2⟩
    case free => exact ⟨_, consuming.2.2.1⟩
    case handle | handling => exact ⟨_, consuming.2.2.2.2⟩
    case release => exact ⟨_, consuming.2.2.2⟩
  obtain ⟨k, same⟩ := taken
  rw [same]
  exact List.take_prefix k s.sent

/-- The ring is a queue: what was taken is a prefix of what was published, a slot is written
    only after its last item was released, and a call is refused only at a moment when the
    ring was full or empty. -/
theorem spsc_fifo (power : ∃ k, size = 2 ^ k) {blank : T} (reach : Reachable (step size) (create blank) s) :
    s.taken <+: s.sent ∧ s.sent.length = s.cursor ∧ s.next ≤ s.cursor ∧ s.cursor - s.next ≤ size ∧
      (s.producer = .idle → s.sent = s.calls) ∧
      (∀ items done, s.producer = .batch items done → s.sent = s.calls ++ items.take done) ∧
      ∀ a s' e, step size a s = some (s', e) → Served size s s' e := by
  have inv := reachable_inv power reach
  have producing := inv.producing
  refine ⟨inv.taken_of_sent, inv.count, inv.order, Nat.sub_le_iff_le_add'.mpr inv.room, fun idle => ?_, fun items done here => ?_,
    fun a s' e taken => step_served power inv taken⟩
  · rw [idle] at producing
    exact producing
  · rw [here] at producing
    exact producing.2

/-- Three items through two slots, the second wave written while the first item is handled. -/
theorem spsc_fifo_wrapped :
    ∃ s : SpscRing Nat, Reachable (step 2) (create 0) s ∧ s.sent = [7, 8, 9] ∧ s.taken = [7, 8] ∧ s.taken <+: s.sent := by
  have taken : ∃ s, Transition.run (step 2) [.publishBatch [7, 8, 9], .producer, .producer, .producer, .producer,
      .consumeBatch, .consumer, .consumer, .consumer, .consumer, .consumer, .consumer, .consumer, .producer, .producer,
      .producer, .producer] (create 0) = some s ∧ s.sent = [7, 8, 9] ∧ s.taken = [7, 8] := ⟨_, rfl, rfl, rfl⟩
  obtain ⟨s, path, sent, handed⟩ := taken
  have reach := Reachable.start.run path
  exact ⟨s, reach, sent, handed, (spsc_fifo ⟨1, rfl⟩ reach).1⟩

end SpscRing

end Titan
