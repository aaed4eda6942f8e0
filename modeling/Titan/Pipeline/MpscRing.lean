import Titan.Pipeline.SpscRing

namespace Titan

open Transition

namespace MpscRing

/-- Where a producer stands inside `try_publish`. -/
inductive Producer (T : Type)
  | idle
  | load (item : T)
  | check (item : T) (pos : Nat)
  | claim (item : T) (pos : Nat)
  | write (item : T) (pos : Nat)
  | publish (item : T) (pos : Nat)

/-- Where the consumer stands: `consume` to `advance` are `try_consume`, the rest is `consume_batch`. -/
inductive Consumer (T : Type)
  | idle
  | consume
  | check (pos : Nat)
  | copy (pos : Nat)
  | free (pos : Nat) (out : T)
  | advance (pos : Nat) (out : T)
  | drain
  | checkNext (pos n : Nat)
  | handle (pos n : Nat)
  | handling (pos n : Nat)
  | finish (pos n : Nat)

inductive Action (ι T : Type)
  | tryPublish (i : ι) (item : T)
  | producer (i : ι) (spurious : Bool)
  | tryConsume
  | consumeBatch
  | consumer
  | handlerRead

inductive Event (T : Type)
  | silent
  | stored (pos : Nat)
  | published (ok : Bool)
  | consumed (out : Option T)
  | seen (item : T)
  | drained (n : Nat)

end MpscRing

open MpscRing

/-- The ring with its consumer and a producer for each `i : ι`. The last five members are
    history: the claims in order, the items of the calls of each producer that returned true,
    the items handed to the consumer, the cells it freed, and the cells written since. -/
structure MpscRing (ι T : Type) where
  seq : Nat → Nat
  data : Nat → T
  enqueue : Nat
  dequeue : Nat
  producers : ι → Producer T
  consumer : Consumer T
  claimed : List (ι × T)
  calls : ι → List T
  taken : List T
  freed : Nat
  dirty : Nat → Bool

namespace MpscRing

variable {ι T : Type}

def create (blank : T) : MpscRing ι T where
  seq := fun i => i
  data := fun _ => blank
  enqueue := 0
  dequeue := 0
  producers := fun _ => .idle
  consumer := .idle
  claimed := []
  calls := fun _ => []
  taken := []
  freed := 0
  dirty := fun _ => false

section Steps

variable [DecidableEq ι]

def setProducer (s : MpscRing ι T) (i : ι) (pc : Producer T) : MpscRing ι T :=
  { s with producers := Function.update s.producers i pc }

def win (s : MpscRing ι T) (i : ι) (item : T) (pos : Nat) : MpscRing ι T :=
  { s with
    enqueue := pos + 1
    claimed := s.claimed ++ [(i, item)]
    producers := Function.update s.producers i (.write item pos) }

def writeCell (size : Nat) (s : MpscRing ι T) (i : ι) (item : T) (pos : Nat) : MpscRing ι T :=
  { s with
    data := Function.update s.data (slotIndex size pos) item
    dirty := Function.update s.dirty (slotIndex size pos) true
    producers := Function.update s.producers i (.publish item pos) }

def publishCell (size : Nat) (s : MpscRing ι T) (i : ι) (item : T) (pos : Nat) : MpscRing ι T :=
  { s with
    seq := Function.update s.seq (slotIndex size pos) (pos + 1)
    calls := Function.update s.calls i (s.calls i ++ [item])
    producers := Function.update s.producers i .idle }

def produce (size : Nat) (s : MpscRing ι T) (i : ι) (spurious : Bool) : Option (MpscRing ι T × Event T) :=
  match s.producers i with
  | .idle => none
  | .load item => some (s.setProducer i (.check item s.enqueue), .silent)
  | .check item pos =>
    let seq := s.seq (slotIndex size pos)
    if seq = pos then some (s.setProducer i (.claim item pos), .silent)
    else if seq < pos then some (s.setProducer i .idle, .published false)
    else some (s.setProducer i (.load item), .silent)
  | .claim item pos =>
    if s.enqueue = pos ∧ spurious = false then some (s.win i item pos, .silent)
    else some (s.setProducer i (.check item s.enqueue), .silent)
  | .write item pos => some (s.writeCell size i item pos, .stored pos)
  | .publish item pos => some (s.publishCell size i item pos, .published true)

def freeCell (size : Nat) (s : MpscRing ι T) (pos : Nat) (pc : Consumer T) : MpscRing ι T :=
  { s with
    seq := Function.update s.seq (slotIndex size pos) (pos + size)
    freed := pos + 1
    dirty := Function.update s.dirty (slotIndex size pos) false
    consumer := pc }

def consume (size : Nat) (s : MpscRing ι T) : Option (MpscRing ι T × Event T) :=
  match s.consumer with
  | .idle => none
  | .consume => some ({ s with consumer := .check s.dequeue }, .silent)
  | .check pos =>
    if s.seq (slotIndex size pos) = pos + 1 then some ({ s with consumer := .copy pos }, .silent)
    else some ({ s with consumer := .idle }, .consumed none)
  | .copy pos =>
    let out := s.data (slotIndex size pos)
    some ({ s with consumer := .free pos out, taken := s.taken ++ [out] }, .silent)
  | .free pos out => some (s.freeCell size pos (.advance pos out), .silent)
  | .advance pos out => some ({ s with dequeue := pos + 1, consumer := .idle }, .consumed (some out))
  | .drain => some ({ s with consumer := .checkNext s.dequeue 0 }, .silent)
  | .checkNext pos n =>
    if s.seq (slotIndex size pos) = pos + 1 then some ({ s with consumer := .handle pos n }, .silent)
    else some ({ s with consumer := .finish pos n }, .silent)
  | .handle pos n =>
    let item := s.data (slotIndex size pos)
    some ({ s with consumer := .handling pos n, taken := s.taken ++ [item] }, .seen item)
  | .handling pos n => some (s.freeCell size pos (.checkNext (pos + 1) (n + 1)), .silent)
  | .finish pos n =>
    if n ≠ 0 then some ({ s with dequeue := pos, consumer := .idle }, .drained n)
    else some ({ s with consumer := .idle }, .drained 0)

/-- The steps of all threads, one access to a cursor or a cell each. `spurious` is a failure of
    the weak compare-exchange. The handler of `consume_batch` may read its cell as often as it
    likes before the cell is freed. -/
def step (size : Nat) (a : Action ι T) (s : MpscRing ι T) : Option (MpscRing ι T × Event T) :=
  match a with
  | .tryPublish i item =>
    match s.producers i with
    | .idle => some (s.setProducer i (.load item), .silent)
    | _ => none
  | .producer i spurious => s.produce size i spurious
  | .tryConsume =>
    match s.consumer with
    | .idle => some ({ s with consumer := .consume }, .silent)
    | _ => none
  | .consumeBatch =>
    match s.consumer with
    | .idle => some ({ s with consumer := .drain }, .silent)
    | _ => none
  | .consumer => s.consume size
  | .handlerRead =>
    match s.consumer with
    | .handling pos _ => some (s, .seen (s.data (slotIndex size pos)))
    | _ => none

end Steps

def items (s : MpscRing ι T) : List T := s.claimed.map Prod.snd

/-- The item a producer has claimed a cell for without having returned yet. -/
def Producer.inFlight : Producer T → List T
  | .write item _ | .publish item _ => [item]
  | _ => []

def Producer.owned : Producer T → Option Nat
  | .write _ pos | .publish _ pos => some pos
  | _ => none

def Cell (size : Nat) (s : MpscRing ι T) (p : Nat) : Prop :=
  s.seq (p % size) = p ∧ (s.enqueue ≤ p → s.dirty (p % size) = false) ∨
    s.seq (p % size) = p + 1 ∧ p < s.enqueue ∧ s.items[p]? = some (s.data (p % size))

def Producing (size : Nat) (s : MpscRing ι T) (i : ι) : Producer T → Prop
  | .idle | .load _ => True
  | .check _ pos => pos ≤ s.enqueue
  | .claim _ pos => pos < s.freed + size
  | .write item pos =>
    s.freed ≤ pos ∧ s.claimed[pos]? = some (i, item) ∧ s.seq (pos % size) = pos ∧ s.dirty (pos % size) = false
  | .publish item pos =>
    s.freed ≤ pos ∧ s.claimed[pos]? = some (i, item) ∧ s.seq (pos % size) = pos ∧ s.data (pos % size) = item

def Consuming (size : Nat) (s : MpscRing ι T) : Consumer T → Prop
  | .idle | .consume | .drain => s.dequeue = s.freed ∧ s.taken = s.items.take s.freed
  | .check pos => pos = s.freed ∧ s.dequeue = s.freed ∧ s.taken = s.items.take s.freed
  | .copy pos => pos = s.freed ∧ s.dequeue = s.freed ∧ s.seq (pos % size) = pos + 1 ∧ s.taken = s.items.take s.freed
  | .free pos out =>
    pos = s.freed ∧ s.dequeue = s.freed ∧ s.seq (pos % size) = pos + 1 ∧ s.taken = s.items.take (s.freed + 1) ∧
      s.items[pos]? = some out
  | .advance pos out =>
    s.freed = pos + 1 ∧ s.dequeue = pos ∧ s.taken = s.items.take s.freed ∧ s.items[pos]? = some out
  | .checkNext pos n | .finish pos n => pos = s.freed ∧ s.dequeue + n = s.freed ∧ s.taken = s.items.take s.freed
  | .handle pos n =>
    pos = s.freed ∧ s.dequeue + n = s.freed ∧ s.seq (pos % size) = pos + 1 ∧ s.taken = s.items.take s.freed
  | .handling pos n =>
    pos = s.freed ∧ s.dequeue + n = s.freed ∧ s.seq (pos % size) = pos + 1 ∧ s.taken = s.items.take (s.freed + 1)

structure Inv [DecidableEq ι] (size : Nat) (s : MpscRing ι T) : Prop where
  order : s.freed ≤ s.enqueue
  room : s.enqueue ≤ s.freed + size
  count : s.claimed.length = s.enqueue
  cell : ∀ p, s.freed ≤ p → p < s.freed + size → Cell size s p
  producing : ∀ i, Producing size s i (s.producers i)
  consuming : Consuming size s s.consumer
  pushed : ∀ i, (s.claimed.filter fun c => c.1 = i).map Prod.snd = s.calls i ++ (s.producers i).inFlight

variable [DecidableEq ι] {size : Nat} {s s' : MpscRing ι T} {e : Event T}

theorem create_inv (blank : T) : Inv size (create blank : MpscRing ι T) := by
  refine ⟨Nat.le_refl 0, Nat.zero_le _, rfl, fun p _ high => .inl ⟨?_, fun _ => rfl⟩, fun i => trivial, ⟨rfl, rfl⟩,
    fun i => rfl⟩
  exact Nat.mod_eq_of_lt (by simpa [create] using high)

theorem eq_of_mod_eq {f p q : Nat} (lowP : f ≤ p) (highP : p < f + size) (lowQ : f ≤ q) (highQ : q < f + size)
    (same : p % size = q % size) : p = q := by
  rcases Nat.lt_trichotomy p q with less | equal | greater
  · exact absurd same (mod_ne_of_lap less (by omega))
  · exact equal
  · exact absurd same.symm (mod_ne_of_lap greater (by omega))

theorem Inv.claimed_lt {pos : Nat} {c : ι × T} (inv : Inv size s) (held : s.claimed[pos]? = some c) : pos < s.enqueue := by
  rw [← inv.count]
  exact (List.getElem?_eq_some_iff.mp held).1

omit [DecidableEq ι] in
theorem items_getElem? {pos : Nat} {i : ι} {item : T} (held : s.claimed[pos]? = some (i, item)) :
    s.items[pos]? = some item := by
  rw [items, List.getElem?_map, held]
  rfl

omit [DecidableEq ι] in
/-- What a producer knows survives every step that leaves its own cell alone. -/
theorem Producing.carry {j : ι} {pc : Producer T} (producing : Producing size s j pc) (enqueue : s.enqueue ≤ s'.enqueue)
    (freed : s.freed ≤ s'.freed) (claimed : ∀ (p : Nat) c, s.claimed[p]? = some c → s'.claimed[p]? = some c)
    (apart : ∀ pos, pc.owned = some pos → s'.freed ≤ pos ∧ s'.seq (pos % size) = s.seq (pos % size) ∧
      s'.dirty (pos % size) = s.dirty (pos % size) ∧ s'.data (pos % size) = s.data (pos % size)) :
    Producing size s' j pc := by
  cases pc with
  | idle | load item => trivial
  | check item pos => exact Nat.le_trans producing enqueue
  | claim item pos => exact Nat.lt_of_lt_of_le producing (Nat.add_le_add_right freed size)
  | write item pos =>
    obtain ⟨low, held, turn, clean⟩ := producing
    obtain ⟨low', seq, dirty, data⟩ := apart pos rfl
    exact ⟨low', claimed _ _ held, seq.trans turn, dirty.trans clean⟩
  | publish item pos =>
    obtain ⟨low, held, turn, written⟩ := producing
    obtain ⟨low', seq, dirty, data⟩ := apart pos rfl
    exact ⟨low', claimed _ _ held, seq.trans turn, data.trans written⟩

theorem Consuming.carry {pc : Consumer T} (consuming : Consuming size s pc) (inv : Inv size s)
    (dequeue : s'.dequeue = s.dequeue) (freed : s'.freed = s.freed) (taken : s'.taken = s.taken)
    (items : ∃ more, s'.items = s.items ++ more)
    (seq : s.seq (s.freed % size) = s.freed + 1 → s'.seq (s.freed % size) = s.freed + 1)
    (published : s.seq (s.freed % size) = s.freed + 1 → s.freed < s.enqueue) : Consuming size s' pc := by
  obtain ⟨more, items⟩ := items
  have length : s.items.length = s.enqueue := by rw [MpscRing.items, List.length_map, inv.count]
  have order := inv.order
  have longer : ∀ k ≤ s.enqueue, (s.items ++ more).take k = s.items.take k := fun k bound =>
    List.take_append_of_le_length (by omega)
  cases pc with
  | idle | consume | drain => simpa only [Consuming, dequeue, freed, taken, items, longer _ order] using consuming
  | check pos => simpa only [Consuming, dequeue, freed, taken, items, longer _ order] using consuming
  | checkNext pos n | finish pos n =>
    simpa only [Consuming, dequeue, freed, taken, items, longer _ order] using consuming
  | copy pos =>
    obtain ⟨rfl, here, ready, same⟩ := consuming
    simp only [Consuming, dequeue, freed, taken, items, longer _ order]
    exact ⟨trivial, here, seq ready, same⟩
  | handle pos n =>
    obtain ⟨rfl, here, ready, same⟩ := consuming
    simp only [Consuming, dequeue, freed, taken, items, longer _ order]
    exact ⟨trivial, here, seq ready, same⟩
  | free pos out =>
    obtain ⟨rfl, here, ready, same, held⟩ := consuming
    have low := published ready
    simp only [Consuming, dequeue, freed, taken, items, longer (s.freed + 1) low]
    exact ⟨trivial, here, seq ready, same, by rw [List.getElem?_append_left (by omega)]; exact held⟩
  | handling pos n =>
    obtain ⟨rfl, here, ready, same⟩ := consuming
    have low := published ready
    simp only [Consuming, dequeue, freed, taken, items, longer (s.freed + 1) low]
    exact ⟨trivial, here, seq ready, same⟩
  | advance pos out =>
    obtain ⟨here, last, same, held⟩ := consuming
    simp only [Consuming, dequeue, freed, taken, items, longer _ order]
    exact ⟨here, last, same, by rw [List.getElem?_append_left (by omega)]; exact held⟩

theorem Inv.published_lt (inv : Inv size s) (positive : 0 < size) (ready : s.seq (s.freed % size) = s.freed + 1) :
    s.freed < s.enqueue := by
  rcases inv.cell s.freed (Nat.le_refl _) (by omega) with ⟨turn, _⟩ | ⟨_, low, _⟩
  · omega
  · exact low

theorem Inv.owned_claim (inv : Inv size s) {i : ι} {pos : Nat} (owned : (s.producers i).owned = some pos) :
    s.freed ≤ pos ∧ ∃ item, s.claimed[pos]? = some (i, item) := by
  have producing := inv.producing i
  revert producing owned
  cases s.producers i <;> intro owned producing
  case idle | load | check | claim => cases owned
  case write item q =>
    cases owned
    exact ⟨producing.1, item, producing.2.1⟩
  case publish item q =>
    cases owned
    exact ⟨producing.1, item, producing.2.1⟩

theorem Inv.owned_turn (inv : Inv size s) {i : ι} {pos : Nat} (owned : (s.producers i).owned = some pos) :
    s.seq (pos % size) = pos := by
  have producing := inv.producing i
  revert producing owned
  cases s.producers i <;> intro owned producing
  case idle | load | check | claim => cases owned
  case write item q =>
    cases owned
    exact producing.2.2.1
  case publish item q =>
    cases owned
    exact producing.2.2.1

theorem Inv.owned_apart (inv : Inv size s) {i j : ι} {p q : Nat} (other : j ≠ i)
    (first : (s.producers i).owned = some p) (second : (s.producers j).owned = some q) : q % size ≠ p % size := by
  obtain ⟨lowP, itemP, heldP⟩ := inv.owned_claim first
  obtain ⟨lowQ, itemQ, heldQ⟩ := inv.owned_claim second
  have highP := inv.claimed_lt heldP
  have highQ := inv.claimed_lt heldQ
  have room := inv.room
  intro same
  have equal := eq_of_mod_eq lowQ (by omega) lowP (by omega) same
  subst equal
  rw [heldP] at heldQ
  cases heldQ
  exact other rfl

theorem producing_update {i : ι} {pc : Producer T} (here : Producing size s' i pc)
    (others : ∀ j, j ≠ i → Producing size s' j (s.producers j)) (j : ι) :
    Producing size s' j (Function.update s.producers i pc j) := by
  by_cases same : j = i
  · subst same
    rwa [Function.update_self]
  · rw [Function.update_of_ne same]
    exact others j same

theorem pushed_update (inv : Inv size s) (i : ι) (pc : Producer T) (claimed : List (ι × T)) (calls : List T)
    (here : (claimed.filter fun c => c.1 = i).map Prod.snd = calls ++ pc.inFlight)
    (others : ∀ j, j ≠ i → claimed.filter (fun c => c.1 = j) = s.claimed.filter fun c => c.1 = j) (j : ι) :
    (claimed.filter fun c => c.1 = j).map Prod.snd =
      Function.update s.calls i calls j ++ (Function.update s.producers i pc j).inFlight := by
  by_cases same : j = i
  · subst same
    rwa [Function.update_self, Function.update_self]
  · rw [Function.update_of_ne same, Function.update_of_ne same, others j same]
    exact inv.pushed j

theorem Inv.moveProducer (inv : Inv size s) {i : ι} {pc : Producer T} (producing : Producing size s i pc)
    (inFlight : pc.inFlight = (s.producers i).inFlight) : Inv size (s.setProducer i pc) := by
  refine ⟨inv.order, inv.room, inv.count, inv.cell, ?_, ?_, ?_⟩
  · refine producing_update ?_ fun j _ => ?_
    · cases pc <;> exact producing
    · have former := inv.producing j
      revert former
      cases s.producers j <;> exact id
  · have consuming := inv.consuming
    show Consuming size _ s.consumer
    revert consuming
    cases s.consumer <;> exact id
  · have moved := pushed_update inv i pc s.claimed (s.calls i) (by rw [inFlight]; exact inv.pushed i) fun j _ => rfl
    simpa [setProducer] using moved

theorem exists_lap (f pos : Nat) (positive : 0 < size) : ∃ p, f ≤ p ∧ p < f + size ∧ p % size = pos % size := by
  have bound := Nat.mod_lt f positive
  have target := Nat.mod_lt pos positive
  have split := Nat.div_add_mod f size
  by_cases later : f % size ≤ pos % size
  · refine ⟨size * (f / size) + pos % size, by omega, by omega, ?_⟩
    rw [Nat.mul_add_mod, Nat.mod_mod]
  · refine ⟨size * (f / size) + size + pos % size, by omega, by omega, ?_⟩
    rw [Nat.add_assoc, Nat.mul_add_mod, Nat.add_mod_left, Nat.mod_mod]

theorem lap_le_of_lt {p q : Nat} (same : p % size = q % size) (less : p < q) : p + size ≤ q := by
  by_contra near
  exact mod_ne_of_lap less (by omega) same

theorem Inv.lap_of_turn (inv : Inv size s) (wide : 2 ≤ size) {pos : Nat} (turn : s.seq (pos % size) = pos) :
    pos < s.freed + size := by
  obtain ⟨p, low, high, same⟩ := exists_lap s.freed pos (show 0 < size by omega)
  have cell := inv.cell p low high
  rw [Cell, same, turn] at cell
  rcases cell with ⟨here, _⟩ | ⟨next, _, _⟩
  · omega
  · have apart := lap_le_of_lt same (by omega)
    omega

theorem Inv.win (inv : Inv size s) {i : ι} {item : T} (here : s.producers i = .claim item s.enqueue) :
    Inv size (s.win i item s.enqueue) := by
  have producing := inv.producing i
  rw [here] at producing
  have room : s.enqueue < s.freed + size := producing
  have count := inv.count
  have order := inv.order
  have kept : ∀ (p : Nat) c, s.claimed[p]? = some c → (s.claimed ++ [(i, item)])[p]? = some c := fun p c held => by
    rw [List.getElem?_append_left (List.getElem?_eq_some_iff.mp held).1]
    exact held
  have items : (s.win i item s.enqueue).items = s.items ++ [item] := by simp [MpscRing.items, MpscRing.win]
  refine ⟨Nat.le_succ_of_le order, room, by simp [MpscRing.win, count], ?_, ?_, ?_, ?_⟩
  · intro p low high
    rcases inv.cell p low high with ⟨turn, clean⟩ | ⟨turn, below, held⟩
    · exact .inl ⟨turn, fun above => clean (Nat.le_of_succ_le above)⟩
    · refine .inr ⟨turn, Nat.lt_succ_of_lt below, ?_⟩
      rw [items, List.getElem?_append_left (by rw [MpscRing.items, List.length_map, count]; exact below)]
      exact held
  · refine producing_update ?_ fun j _ => ?_
    · rcases inv.cell s.enqueue order room with ⟨turn, clean⟩ | ⟨_, below, _⟩
      · refine ⟨order, ?_, turn, clean (Nat.le_refl _)⟩
        show (s.claimed ++ [(i, item)])[s.enqueue]? = _
        rw [← count, List.getElem?_append_right (Nat.le_refl _), Nat.sub_self]
        rfl
      · exact absurd below (Nat.lt_irrefl _)
    · refine (inv.producing j).carry (Nat.le_succ _) (Nat.le_refl _) kept fun pos owned => ⟨?_, rfl, rfl, rfl⟩
      exact (inv.owned_claim owned).1
  · exact inv.consuming.carry inv rfl rfl rfl ⟨[item], items⟩ id fun ready => inv.published_lt (by omega) ready
  · have former := inv.pushed i
    rw [here] at former
    simp only [Producer.inFlight, List.append_nil] at former
    have moved := pushed_update inv i (.write item s.enqueue) (s.claimed ++ [(i, item)]) (s.calls i)
      (by simp [List.filter_append, former, Producer.inFlight])
      (fun j other => by simp [List.filter_append, other.symm])
    simpa [MpscRing.win] using moved

theorem Inv.writeCell (power : ∃ k, size = 2 ^ k) (inv : Inv size s) {i : ι} {item : T} {pos : Nat}
    (here : s.producers i = .write item pos) : Inv size (s.writeCell size i item pos) := by
  have producing := inv.producing i
  rw [here] at producing
  obtain ⟨low, held, turn, clean⟩ := producing
  have high := inv.claimed_lt held
  have room := inv.room
  have mine : (s.producers i).owned = some pos := by rw [here]; rfl
  rw [MpscRing.writeCell, slotIndex_eq_mod power]
  refine ⟨inv.order, room, inv.count, ?_, ?_, ?_, ?_⟩
  · intro p lowP highP
    by_cases same : p % size = pos % size
    · have equal := eq_of_mod_eq (f := s.freed) lowP highP low (by omega) same
      subst equal
      exact .inl ⟨turn, fun above => absurd (Nat.lt_of_lt_of_le high above) (Nat.lt_irrefl _)⟩
    · rcases inv.cell p lowP highP with ⟨turnP, cleanP⟩ | ⟨turnP, below, heldP⟩
      · exact .inl ⟨turnP, fun above => (Function.update_of_ne same _ _).trans (cleanP above)⟩
      · exact .inr ⟨turnP, below, heldP.trans (congrArg some (Function.update_of_ne same _ _).symm)⟩
  · refine producing_update ⟨low, held, turn, Function.update_self _ _ _⟩ fun j other => ?_
    refine (inv.producing j).carry (Nat.le_refl _) (Nat.le_refl _) (fun _ _ => id) fun q owned => ?_
    have apart := inv.owned_apart other mine owned
    exact ⟨(inv.owned_claim owned).1, rfl, Function.update_of_ne apart _ _, Function.update_of_ne apart _ _⟩
  · exact inv.consuming.carry inv rfl rfl rfl ⟨[], (List.append_nil _).symm⟩ id
      fun ready => inv.published_lt (by omega) ready
  · have former := inv.pushed i
    rw [here] at former
    have moved := pushed_update inv i (.publish item pos) s.claimed (s.calls i) former fun j _ => rfl
    simpa using moved

theorem Inv.publishCell (power : ∃ k, size = 2 ^ k) (inv : Inv size s) {i : ι} {item : T} {pos : Nat}
    (here : s.producers i = .publish item pos) : Inv size (s.publishCell size i item pos) := by
  have producing := inv.producing i
  rw [here] at producing
  obtain ⟨low, held, turn, written⟩ := producing
  have high := inv.claimed_lt held
  have room := inv.room
  have mine : (s.producers i).owned = some pos := by rw [here]; rfl
  rw [MpscRing.publishCell, slotIndex_eq_mod power]
  refine ⟨inv.order, room, inv.count, ?_, ?_, ?_, ?_⟩
  · intro p lowP highP
    by_cases same : p % size = pos % size
    · have equal := eq_of_mod_eq (f := s.freed) lowP highP low (by omega) same
      subst equal
      exact .inr ⟨Function.update_self _ _ _, high, (items_getElem? held).trans (congrArg some written.symm)⟩
    · rcases inv.cell p lowP highP with ⟨turnP, cleanP⟩ | ⟨turnP, below, heldP⟩
      · exact .inl ⟨(Function.update_of_ne same _ _).trans turnP, cleanP⟩
      · exact .inr ⟨(Function.update_of_ne same _ _).trans turnP, below, heldP⟩
  · refine producing_update trivial fun j other => ?_
    refine (inv.producing j).carry (Nat.le_refl _) (Nat.le_refl _) (fun _ _ => id) fun q owned => ?_
    have apart := inv.owned_apart other mine owned
    exact ⟨(inv.owned_claim owned).1, Function.update_of_ne apart _ _, rfl, rfl⟩
  · refine inv.consuming.carry inv rfl rfl rfl ⟨[], (List.append_nil _).symm⟩ (fun ready => ?_)
      fun ready => inv.published_lt (by omega) ready
    have apart : s.freed % size ≠ pos % size := by
      intro same
      rw [same, turn] at ready
      have equal := eq_of_mod_eq (Nat.le_refl _) (by omega) low (by omega) same
      omega
    exact (Function.update_of_ne apart _ _).trans ready
  · have former := inv.pushed i
    rw [here] at former
    exact pushed_update inv i .idle s.claimed _ (by rw [former]; simp [Producer.inFlight]) fun j _ => rfl

theorem produce_inv (power : ∃ k, size = 2 ^ k) (wide : 2 ≤ size) (inv : Inv size s) {i : ι} {spurious : Bool}
    (taken : s.produce size i spurious = some (s', e)) : Inv size s' := by
  have producing := inv.producing i
  unfold produce at taken
  split at taken
  all_goals rename_i here; rw [here] at producing
  · cases taken
  · cases taken
    exact inv.moveProducer (Nat.le_refl _) (by rw [here]; rfl)
  · rename_i item pos
    dsimp only at taken
    split at taken
    · rename_i turn
      cases taken
      refine inv.moveProducer ?_ (by rw [here]; rfl)
      rw [slotIndex_eq_mod power] at turn
      exact inv.lap_of_turn wide turn
    · split at taken <;> cases taken
      · exact inv.moveProducer trivial (by rw [here]; rfl)
      · exact inv.moveProducer trivial (by rw [here]; rfl)
  · split at taken <;> cases taken
    · rename_i won
      obtain ⟨rfl, _⟩ := won
      exact inv.win here
    · exact inv.moveProducer (Nat.le_refl _) (by rw [here]; rfl)
  · cases taken
    exact inv.writeCell power here
  · cases taken
    exact inv.publishCell power here

theorem Inv.moveConsumer (inv : Inv size s) (pc : Consumer T) {dequeue : Nat} {taken : List T}
    (consuming : Consuming size { s with dequeue := dequeue, taken := taken } pc) :
    Inv size { s with dequeue := dequeue, taken := taken, consumer := pc } := by
  refine ⟨inv.order, inv.room, inv.count, inv.cell, fun i => ?_, ?_, inv.pushed⟩
  · exact (inv.producing i).carry (Nat.le_refl _) (Nat.le_refl _) (fun _ _ => id) fun pos owned =>
      ⟨(inv.owned_claim owned).1, rfl, rfl, rfl⟩
  · cases pc <;> exact consuming

theorem Inv.freeCell (power : ∃ k, size = 2 ^ k) (inv : Inv size s) {pc : Consumer T} (positive : 0 < size)
    (ready : s.seq (s.freed % size) = s.freed + 1)
    (consuming : Consuming size (s.freeCell size s.freed pc) pc) : Inv size (s.freeCell size s.freed pc) := by
  have low := inv.published_lt positive ready
  have room := inv.room
  have apart : ∀ p, s.freed + 1 ≤ p → p < s.freed + size → p % size ≠ s.freed % size := fun p above below =>
    (mod_ne_of_lap (by omega) (by omega)).symm
  have index := slotIndex_eq_mod power s.freed
  refine ⟨low, by show s.enqueue ≤ s.freed + 1 + size; omega, inv.count, ?_, fun i => ?_, consuming, inv.pushed⟩
  · intro p above below
    simp only [Cell, MpscRing.freeCell, index] at above below ⊢
    rcases Nat.lt_or_ge p (s.freed + size) with inside | last
    · rw [Function.update_of_ne (apart p above inside), Function.update_of_ne (apart p above inside)]
      exact inv.cell p (Nat.le_of_succ_le above) inside
    · obtain rfl : p = s.freed + size := by omega
      rw [Nat.add_mod_right]
      exact .inl ⟨Function.update_self _ _ _, fun _ => Function.update_self _ _ _⟩
  · refine (inv.producing i).carry (Nat.le_refl _) (Nat.le_succ _) (fun _ _ => id) fun pos owned => ?_
    obtain ⟨above, item, held⟩ := inv.owned_claim owned
    have turn := inv.owned_turn owned
    have below := inv.claimed_lt held
    have later : s.freed + 1 ≤ pos := by
      rcases Nat.lt_or_eq_of_le above with less | rfl
      · exact less
      · omega
    have other := apart pos later (by omega)
    rw [MpscRing.freeCell, index]
    exact ⟨later, Function.update_of_ne other _ _, Function.update_of_ne other _ _, rfl⟩

theorem Inv.ready_item (power : ∃ k, size = 2 ^ k) (inv : Inv size s) (positive : 0 < size)
    (ready : s.seq (s.freed % size) = s.freed + 1) :
    s.items[s.freed]? = some (s.data (slotIndex size s.freed)) := by
  rw [slotIndex_eq_mod power]
  rcases inv.cell s.freed (Nat.le_refl _) (by omega) with ⟨turn, _⟩ | ⟨_, _, held⟩
  · omega
  · exact held

theorem Inv.take_succ (power : ∃ k, size = 2 ^ k) (inv : Inv size s) (positive : 0 < size)
    (ready : s.seq (s.freed % size) = s.freed + 1) (taken : s.taken = s.items.take s.freed) :
    s.taken ++ [s.data (slotIndex size s.freed)] = s.items.take (s.freed + 1) := by
  rw [List.take_add_one, inv.ready_item power positive ready, taken]
  rfl

theorem consume_inv (power : ∃ k, size = 2 ^ k) (wide : 2 ≤ size) (inv : Inv size s)
    (taken : s.consume size = some (s', e)) : Inv size s' := by
  have positive : 0 < size := by omega
  have consuming := inv.consuming
  unfold consume at taken
  split at taken
  all_goals rename_i here; rw [here] at consuming
  · cases taken
  · cases taken
    exact inv.moveConsumer _ ⟨consuming.1, consuming⟩
  · obtain ⟨rfl, last, same⟩ := consuming
    split at taken <;> cases taken
    · rename_i ready
      rw [slotIndex_eq_mod power] at ready
      exact inv.moveConsumer _ ⟨rfl, last, ready, same⟩
    · exact inv.moveConsumer _ ⟨last, same⟩
  · obtain ⟨rfl, last, ready, same⟩ := consuming
    cases taken
    have held := inv.ready_item power positive ready
    exact inv.moveConsumer _ ⟨rfl, last, ready, inv.take_succ power positive ready same, held⟩
  · obtain ⟨rfl, last, ready, same, held⟩ := consuming
    cases taken
    exact inv.freeCell power positive ready ⟨rfl, last, same, held⟩
  · obtain ⟨freed, last, same, held⟩ := consuming
    cases taken
    exact inv.moveConsumer _ ⟨freed.symm, same⟩
  · cases taken
    exact inv.moveConsumer _ ⟨consuming.1, consuming⟩
  · obtain ⟨rfl, last, same⟩ := consuming
    split at taken <;> cases taken
    · rename_i ready
      rw [slotIndex_eq_mod power] at ready
      exact inv.moveConsumer _ ⟨rfl, last, ready, same⟩
    · exact inv.moveConsumer _ ⟨rfl, last, same⟩
  · obtain ⟨rfl, last, ready, same⟩ := consuming
    cases taken
    exact inv.moveConsumer _ ⟨rfl, last, ready, inv.take_succ power positive ready same⟩
  · obtain ⟨rfl, last, ready, same⟩ := consuming
    cases taken
    exact inv.freeCell power positive ready ⟨rfl, congrArg (· + 1) last, same⟩
  · obtain ⟨rfl, last, same⟩ := consuming
    split at taken <;> cases taken
    · exact inv.moveConsumer _ ⟨rfl, same⟩
    · rename_i none
      obtain rfl := Decidable.not_not.mp none
      exact inv.moveConsumer _ ⟨last, same⟩

theorem step_inv (power : ∃ k, size = 2 ^ k) (wide : 2 ≤ size) {a : Action ι T} (inv : Inv size s)
    (taken : step size a s = some (s', e)) : Inv size s' := by
  have consuming := inv.consuming
  cases a with
  | tryPublish i item =>
    simp only [step] at taken
    split at taken
    · rename_i idle
      cases taken
      exact inv.moveProducer trivial (by rw [idle]; rfl)
    · cases taken
  | producer i spurious => exact produce_inv power wide inv taken
  | tryConsume =>
    simp only [step] at taken
    split at taken
    · rename_i idle
      cases taken
      rw [idle] at consuming
      exact inv.moveConsumer _ consuming
    · cases taken
  | consumeBatch =>
    simp only [step] at taken
    split at taken
    · rename_i idle
      cases taken
      rw [idle] at consuming
      exact inv.moveConsumer _ consuming
    · cases taken
  | consumer => exact consume_inv power wide inv taken
  | handlerRead =>
    simp only [step] at taken
    split at taken
    · cases taken
      exact inv
    · cases taken

theorem reachable_inv (power : ∃ k, size = 2 ^ k) (wide : 2 ≤ size) {blank : T}
    (reach : Reachable (step size) (create blank : MpscRing ι T) s) : Inv size s :=
  reach.invariant (create_inv blank) fun _ _ _ _ inv taken => step_inv power wide inv taken

structure Served (size : Nat) (s s' : MpscRing ι T) (e : Event T) : Prop where
  clean : ∀ pos, e = .stored pos → s.dirty (pos % size) = false
  freed : ∀ pos, e = .stored pos → pos < s.freed + size ∧
    ∀ p, s.freed ≤ p → p < s.enqueue → p ≠ pos → p % size ≠ pos % size
  refused : e = .published false → s.enqueue = s.freed + size
  delivered : ∀ out, e = .consumed (some out) → s'.taken.getLast? = some out
  seen : ∀ item, e = .seen item → s'.taken.getLast? = some item

omit [DecidableEq ι] in
theorem Served.silent : Served size s s' .silent := by
  constructor <;> simp

theorem Inv.full_of_behind (inv : Inv size s) (positive : 0 < size) {pos : Nat} (bound : pos ≤ s.enqueue)
    (behind : s.seq (pos % size) < pos) : s.enqueue = s.freed + size := by
  have room := inv.room
  obtain ⟨p, low, high, same⟩ := exists_lap s.freed pos positive
  have cell := inv.cell p low high
  rw [Cell, same] at cell
  have less : p < pos := by
    rcases cell with ⟨here, _⟩ | ⟨next, _, _⟩ <;> omega
  have apart := lap_le_of_lt same less
  omega

theorem produce_served (power : ∃ k, size = 2 ^ k) (wide : 2 ≤ size) (inv : Inv size s) {i : ι} {spurious : Bool}
    (taken : s.produce size i spurious = some (s', e)) : Served size s s' e := by
  have producing := inv.producing i
  have room := inv.room
  unfold produce at taken
  split at taken
  all_goals rename_i here; rw [here] at producing
  · cases taken
  · cases taken
    exact .silent
  · rename_i item pos
    dsimp only at taken
    split at taken
    · cases taken
      exact .silent
    · split at taken <;> cases taken
      · rename_i behind
        rw [slotIndex_eq_mod power] at behind
        have full := inv.full_of_behind (by omega) producing behind
        constructor <;> simp [full]
      · exact .silent
  · split at taken <;> cases taken <;> exact .silent
  · cases taken
    rename_i item pos
    obtain ⟨low, held, turn, clean⟩ := producing
    have below := inv.claimed_lt held
    refine ⟨?_, ?_, by simp, by simp, by simp⟩ <;> intro q shown <;> cases shown
    · exact clean
    · refine ⟨by omega, fun p above under other same => other ?_⟩
      exact eq_of_mod_eq above (by omega) low (by omega) same
  · cases taken
    constructor <;> simp

theorem consume_served (inv : Inv size s) (taken : s.consume size = some (s', e)) : Served size s s' e := by
  have consuming := inv.consuming
  unfold consume at taken
  split at taken
  all_goals rename_i here; rw [here] at consuming
  · cases taken
  · cases taken
    exact .silent
  · split at taken <;> cases taken
    · exact .silent
    · constructor <;> simp
  · cases taken
    exact .silent
  · cases taken
    exact .silent
  · obtain ⟨freed, last, same, held⟩ := consuming
    cases taken
    have final : s.taken.getLast? = s.items[s.dequeue]? := by
      rw [same, freed, last, List.take_add_one, held]
      simp
    constructor <;> simp [final, last, held]
  · cases taken
    exact .silent
  · split at taken <;> cases taken <;> exact .silent
  · cases taken
    constructor <;> simp
  · cases taken
    exact .silent
  · split at taken <;> cases taken <;> constructor <;> simp

theorem step_served (power : ∃ k, size = 2 ^ k) (wide : 2 ≤ size) {a : Action ι T} (inv : Inv size s)
    (taken : step size a s = some (s', e)) : Served size s s' e := by
  cases a with
  | tryPublish i item =>
    simp only [step] at taken
    split at taken <;> cases taken
    exact .silent
  | producer i spurious => exact produce_served power wide inv taken
  | tryConsume =>
    simp only [step] at taken
    split at taken <;> cases taken
    exact .silent
  | consumeBatch =>
    simp only [step] at taken
    split at taken <;> cases taken
    exact .silent
  | consumer => exact consume_served inv taken
  | handlerRead =>
    simp only [step] at taken
    split at taken <;> cases taken
    rename_i pos n here
    have consuming := inv.consuming
    rw [here] at consuming
    obtain ⟨rfl, last, ready, same⟩ := consuming
    have held := inv.ready_item power (by omega) ready
    have final : s.taken.getLast? = s.items[s.freed]? := by
      rw [same, List.take_add_one, held]
      simp
    constructor <;> simp [final, held]

theorem Inv.taken_of_items (inv : Inv size s) (positive : 0 < size) : ∃ k ≤ s.enqueue, s.taken = s.items.take k := by
  have consuming := inv.consuming
  have order := inv.order
  have published : s.seq (s.freed % size) = s.freed + 1 → s.freed + 1 ≤ s.enqueue := inv.published_lt positive
  revert consuming
  cases s.consumer <;> intro consuming
  case idle | consume | drain => exact ⟨_, order, consuming.2⟩
  case check | checkNext | finish => exact ⟨_, order, consuming.2.2⟩
  case copy | handle => exact ⟨_, order, consuming.2.2.2⟩
  case advance => exact ⟨_, order, consuming.2.2.1⟩
  case free =>
    obtain ⟨rfl, _, ready, same, _⟩ := consuming
    exact ⟨_, published ready, same⟩
  case handling =>
    obtain ⟨rfl, _, ready, same⟩ := consuming
    exact ⟨_, published ready, same⟩

theorem Inv.taken_eq (inv : Inv size s) (positive : 0 < size) :
    s.taken = (s.claimed.take s.taken.length).map Prod.snd := by
  obtain ⟨k, bound, same⟩ := inv.taken_of_items positive
  have length : s.taken.length = k := by
    rw [same, List.length_take, items, List.length_map, inv.count]
    omega
  rw [length, same, items, List.map_take]

/-- The consumer gets the claimed items in claim order, each producer's in its own order; a
    cell is written once between two frees, and a call is refused only at a moment when a
    whole lap of claims is not freed. -/
theorem mpsc_exactly_once (power : ∃ k, size = 2 ^ k) (wide : 2 ≤ size) {blank : T}
    (reach : Reachable (step size) (create blank : MpscRing ι T) s) :
    s.claimed.length = s.enqueue ∧ s.taken = (s.claimed.take s.taken.length).map Prod.snd ∧
      (∀ i, (s.claimed.filter fun c => c.1 = i).map Prod.snd = s.calls i ++ (s.producers i).inFlight) ∧
      (∀ i, ((s.claimed.take s.taken.length).filter fun c => c.1 = i).map Prod.snd <+:
        s.calls i ++ (s.producers i).inFlight) ∧
      (∀ i j p q, j ≠ i → (s.producers i).owned = some p → (s.producers j).owned = some q →
        q % size ≠ p % size) ∧
      ∀ a s' e, step size a s = some (s', e) → Served size s s' e := by
  have inv := reachable_inv power wide reach
  refine ⟨inv.count, inv.taken_eq (by omega), inv.pushed, fun i => ?_, fun i j p q => inv.owned_apart,
    fun a s' e taken => step_served power wide inv taken⟩
  rw [← inv.pushed i]
  have front : s.claimed.take s.taken.length <+: s.claimed := List.take_prefix _ _
  exact (front.filter _).map _

/-- Two producers; the one that claimed second publishes first, and the consumer waits for the other. -/
theorem mpsc_exactly_once_overtaken :
    ∃ s : MpscRing Bool Nat, Reachable (step 2) (create 0) s ∧ s.claimed = [(false, 7), (true, 8)] ∧
      s.taken = [7] ∧ s.taken = (s.claimed.take s.taken.length).map Prod.snd := by
  have taken : ∃ s : MpscRing Bool Nat, Transition.run (step 2) [.tryPublish false 7, .tryPublish true 8,
      .producer false false, .producer false false, .producer false false, .producer true false, .producer true false,
      .producer true true, .producer true false, .producer true false, .producer true false, .producer true false,
      .tryConsume, .consumer, .consumer, .producer false false, .producer false false, .tryConsume, .consumer,
      .consumer, .consumer] (create 0) = some s ∧ s.claimed = [(false, 7), (true, 8)] ∧ s.taken = [7] :=
    ⟨_, rfl, rfl, rfl⟩
  obtain ⟨s, path, claims, handed⟩ := taken
  have reach := Reachable.start.run path
  exact ⟨s, reach, claims, handed, (mpsc_exactly_once ⟨1, rfl⟩ (by decide) reach).2.1⟩

end MpscRing

end Titan
