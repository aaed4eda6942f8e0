import Titan.Pipeline.Server

namespace Titan

open Journaler Sequencer PinNode Transition

namespace Journaler

theorem store_image {j : Journaler} (image : j.file = applyWrites j.writes) (word : Nat) (value : UInt64) :
    (j.store word value).file = applyWrites (j.store word value).writes := by
  rw [store, applyWrites_append_single, ← image]

theorem copy_image (values : List UInt64) {j : Journaler} (image : j.file = applyWrites j.writes) (start : Nat) :
    (j.copy start values).file = applyWrites (j.copy start values).writes := by
  induction values generalizing j start with
  | nil => exact image
  | cons value rest ih => exact ih (store_image image start value) (start + 1)

theorem append_image {j j' : Journaler} {o : Order} (image : j.file = applyWrites j.writes) (appended : j.append o = .ok j') :
    j'.file = applyWrites j'.writes := by
  rw [append] at appended
  split at appended
  · cases appended
  · cases appended
    exact store_image (copy_image _ image _) _ _

theorem create_image (capacity : Nat) : (create capacity).file = applyWrites (create capacity).writes := by
  have blank : (fun _ => 0 : Nat → UInt64) = applyWrites [] := rfl
  exact store_image (store_image (store_image (store_image (store_image blank _ _) _ _) _ _) _ _) _ _

theorem record_of_log {records : List Order} {i : Nat} {o : Order} (held : records[i]? = some o) :
    record (applyWrites (logWrites records)) i = o := by
  apply Order.ofWords_words
  intro j low
  have whole : crashImage (logWrites records) (fun _ => (logWrites records).length) = applyWrites (logWrites records) := by
    funext word
    rw [crashImage, List.take_length]
  rw [← whole]
  apply crashImage_stored low held
  rw [List.take_length]
  have value : o.words[j]? = some o.words[j] := List.getElem?_eq_getElem low
  refine ⟨(recordWord i j, o.words[j]), List.mem_append_right _ ?_, rfl⟩
  apply mem_recordsWrites.mpr
  refine ⟨i, o, held, ?_⟩
  rw [Nat.zero_add]
  exact mem_recordWrites.mpr (.inl ⟨j, value, rfl⟩)

end Journaler

namespace Server

variable {n : Nat} {cfg : ServerConfig} {seq seq' : Sequencer} {records orders : List Order}

structure Logged (cfg : ServerConfig) (seq : Sequencer) (records : List Order) : Prop where
  writes : seq.journal.writes = logWrites records
  image : seq.journal.file = applyWrites seq.journal.writes
  count : seq.journal.count = UInt64.ofNat records.length
  next : seq.nextSeq = UInt64.ofNat records.length
  capacity : seq.journal.capacity = cfg.walCapacity
  within : records.length ≤ cfg.walCapacity

theorem walCapacity_small (cfg : ServerConfig) : cfg.walCapacity + 1 < 2 ^ 64 := by
  have fits := cfg.walFits
  simp only [HEADER_BYTES, ORDER_BYTES] at fits
  omega

theorem create_logged (cfg : ServerConfig) :
    Logged cfg (Sequencer.create (Journaler.create cfg.walCapacity) cfg.flushInterval cfg.syncEvery) [] where
  writes := by
    rw [logWrites, recordsWrites, List.append_nil]
    rfl
  image := create_image _
  count := rfl
  next := rfl
  capacity := rfl
  within := Nat.zero_le _

theorem stampFrom_concat (k : Nat) (orders : List Order) (o : Order) :
    stampFrom k (orders ++ [o]) = stampFrom k orders ++ [{ o with seq := UInt64.ofNat (k + orders.length) }] := by
  induction orders generalizing k with
  | nil => rfl
  | cons first rest ih =>
    rw [List.cons_append, stampFrom, stampFrom, ih, List.length_cons, List.cons_append, Nat.add_assoc, Nat.add_comm 1]

theorem recordsWrites_concat (k : Nat) (records : List Order) (o : Order) :
    recordsWrites k (records ++ [o]) = recordsWrites k records ++ recordWrites (k + records.length) o := by
  induction records generalizing k with
  | nil => simp [recordsWrites]
  | cons first rest ih =>
    rw [List.cons_append, recordsWrites, recordsWrites, ih, List.length_cons, List.append_assoc, Nat.add_assoc, Nat.add_comm 1]

theorem Logged.journal {o stamped : Order} (logged : Logged cfg seq (stampFrom 0 orders))
    (appended : seq.journalOrder o = .ok (seq', stamped)) :
    Logged cfg seq' (stampFrom 0 (orders ++ [o])) ∧ stampFrom 0 (orders ++ [o]) = stampFrom 0 orders ++ [stamped] := by
  have bound := walCapacity_small cfg
  have within := logged.within
  have value : seq.journal.count.toNat = (stampFrom 0 orders).length := by
    rw [logged.count, UInt64.toNat_ofNat', Nat.mod_eq_of_lt (by omega)]
  rw [journalOrder] at appended
  cases stored : seq.journal.append { o with seq := seq.nextSeq } with
  | error message =>
    rw [stored] at appended
    cases appended
  | ok journal =>
    rw [stored] at appended
    cases appended
    have room : (stampFrom 0 orders).length < seq.journal.capacity := by
      by_contra full
      rw [append, value, if_pos (Nat.not_lt.mp full)] at stored
      cases stored
    rcases append_spec logged.count (by omega) room { o with seq := seq.nextSeq } with
      ⟨j, again, writes, count, capacity, -⟩
    rw [stored] at again
    cases again
    rw [logged.capacity] at room capacity
    have concat : stampFrom 0 (orders ++ [o]) = stampFrom 0 orders ++ [{ o with seq := seq.nextSeq }] := by
      rw [stampFrom_concat, logged.next, stampFrom_length, Nat.zero_add]
    refine ⟨?_, concat⟩
    rw [concat]
    refine ⟨?_, append_image logged.image stored, ?_, ?_, capacity, ?_⟩
    · show journal.writes = _
      rw [writes, logged.writes, logWrites, logWrites, recordsWrites_concat, Nat.zero_add, List.append_assoc]
    · rw [List.length_append]
      exact count
    · show seq.nextSeq + 1 = _
      rw [logged.next, List.length_append, UInt64.ofNat_add]
      rfl
    · rw [List.length_append]
      exact room

theorem Logged.carry (logged : Logged cfg seq records) (writes : seq'.journal.writes = seq.journal.writes)
    (file : seq'.journal.file = seq.journal.file) (capacity : seq'.journal.capacity = seq.journal.capacity)
    (next : seq'.nextSeq = seq.nextSeq) : Logged cfg seq' records where
  writes := writes.trans logged.writes
  image := by rw [file, logged.image, writes]
  count := (congrFun file COUNT_WORD).trans logged.count
  next := next.trans logged.next
  capacity := capacity.trans logged.capacity
  within := logged.within

/-- What a gateway was given has been pushed, up to the order that it is pushing. -/
def Pushing (mpsc : MpscRing (Fin n) Order) (i : Fin n) (pushed : List Order) : Gateway → Prop
  | .running | .stopped => mpsc.producers i = .idle ∧ pushed = mpsc.calls i
  | .pushing o => pushed = mpsc.calls i ++ [o] ∧ ∀ item, (mpsc.producers i).call = some item → item = o

structure Handed (cfg : ServerConfig) (ingress : SpscRing Order) (seq : Sequencer) (orders : List Order) : Prop where
  logged : Logged cfg seq (stampFrom 0 orders)
  calls : ingress.calls = stampFrom 0 orders
  idle : ingress.producer = .idle

def Sequencing (cfg : ServerConfig) (mpsc : MpscRing (Fin n) Order) (ingress : SpscRing Order) (seq : Sequencer)
    (stopped : Bool) : SequencerPc → Prop
  | .check => mpsc.consumer = .idle ∧ Handed cfg ingress seq mpsc.taken
  | .loadEnqueue => stopped = true ∧ mpsc.consumer = .idle ∧ Handed cfg ingress seq mpsc.taken
  | .loadDequeue e => stopped = true ∧ e = mpsc.enqueue ∧ mpsc.consumer = .idle ∧ Handed cfg ingress seq mpsc.taken
  | .drain => mpsc.consumer.batch = true ∧ Handed cfg ingress seq mpsc.taken
  | .journal o => mpsc.consumer.batch = true ∧ ∃ before, mpsc.taken = before ++ [o] ∧ Handed cfg ingress seq before
  | .push o =>
    mpsc.consumer.batch = true ∧ Logged cfg seq (stampFrom 0 mpsc.taken) ∧ stampFrom 0 mpsc.taken = ingress.calls ++ [o] ∧
      ∀ call, ingress.producer.call = some call → call = ([o], false)
  | .flush | .done | .exited =>
    stopped = true ∧ mpsc.dequeue = mpsc.enqueue ∧ mpsc.consumer = .idle ∧ Handed cfg ingress seq mpsc.taken

def Matching (ingress : SpscRing Order) (egress : SpscRing TradeEvent) (buf : List TradeEvent) (submitted : List Order)
    (emitted : List TradeEvent) (done : Bool) : MatcherPc → Prop
  | .check => ingress.consumer = .idle ∧ ingress.taken = submitted ∧ egress.producer = .idle ∧ emitted = egress.calls ∧ buf = []
  | .loadCursor =>
    done = true ∧ ingress.consumer = .idle ∧ ingress.taken = submitted ∧ egress.producer = .idle ∧ emitted = egress.calls ∧
      buf = []
  | .loadNext c =>
    done = true ∧ c = ingress.cursor ∧ ingress.consumer = .idle ∧ ingress.taken = submitted ∧ egress.producer = .idle ∧
      emitted = egress.calls ∧ buf = []
  | .drain =>
    ingress.consumer.batch = true ∧ ingress.taken = submitted ∧ egress.producer = .idle ∧ emitted = egress.calls ++ buf
  | .submit o =>
    ingress.consumer.batch = true ∧ ingress.taken = submitted ++ [o] ∧ egress.producer = .idle ∧ emitted = egress.calls ++ buf
  | .emit rest =>
    ingress.consumer.batch = true ∧ ingress.taken = submitted ∧ egress.producer = .idle ∧
      emitted = egress.calls ++ buf ++ rest
  | .publish rest =>
    ingress.consumer.batch = true ∧ ingress.taken = submitted ∧ egress.producer.call = some (buf, true) ∧
      emitted = egress.calls ++ buf ++ rest
  | .flush => ingress.consumer = .idle ∧ ingress.taken = submitted ∧ egress.producer = .idle ∧ emitted = egress.calls ++ buf
  | .flushing =>
    ingress.consumer = .idle ∧ ingress.taken = submitted ∧ egress.producer.call = some (buf, true) ∧
      emitted = egress.calls ++ buf
  | .done | .exited =>
    done = true ∧ ingress.next = ingress.cursor ∧ ingress.consumer = .idle ∧ ingress.taken = submitted ∧
      egress.producer = .idle ∧ emitted = egress.calls ∧ buf = []

def Publishing (egress : SpscRing TradeEvent) (batch : List TradeEvent) (batches : List (List TradeEvent)) (done : Bool) :
    PublisherPc → Prop
  | .check => egress.consumer = .idle ∧ egress.taken = batches.flatten ∧ batch = []
  | .loadCursor => done = true ∧ egress.consumer = .idle ∧ egress.taken = batches.flatten ∧ batch = []
  | .loadNext c =>
    done = true ∧ c = egress.cursor ∧ egress.consumer = .idle ∧ egress.taken = batches.flatten ∧ batch = []
  | .drain => egress.consumer.batch = true ∧ egress.taken = batches.flatten ++ batch
  | .flush => egress.consumer = .idle ∧ egress.taken = batches.flatten ++ batch
  | .last =>
    done = true ∧ egress.next = egress.cursor ∧ egress.consumer = .idle ∧ egress.taken = batches.flatten ++ batch
  | .exited =>
    done = true ∧ egress.next = egress.cursor ∧ egress.consumer = .idle ∧ egress.taken = batches.flatten ∧ batch = []

structure Inv (cfg : ServerConfig) (s : Server n) : Prop where
  mpsc : MpscRing.Inv cfg.mpscSize s.mpsc
  ingress : SpscRing.Inv cfg.ingressSize s.ingress
  egress : SpscRing.Inv cfg.egressSize s.egress
  pushing : ∀ i, Pushing s.mpsc i (s.pushed i) (s.gateways i)
  stopped : s.gatewayStopped = true → ∀ i, s.gateways i = .stopped
  sequencing : Sequencing cfg s.mpsc s.ingress s.seq s.gatewayStopped s.sequencer
  sequenced : s.sequencerDone = true → s.sequencer = .exited
  run : Matcher.submitAll s.submitted (OrderBook.create cfg.maxNodes cfg.idCapacity cfg.levelCapacity) =
    some (s.book, s.emitted)
  matching : Matching s.ingress s.egress s.buf s.submitted s.emitted s.sequencerDone s.matcher
  matched : s.matcherDone = true → s.matcher = .exited
  publishing : Publishing s.egress s.batch s.batches s.matcherDone s.publisher

theorem create_inv (n : Nat) (cfg : ServerConfig) : Inv cfg (create n cfg) where
  mpsc := MpscRing.create_inv _
  ingress := SpscRing.create_inv _ _
  egress := SpscRing.create_inv _ _
  pushing _ := ⟨rfl, rfl⟩
  stopped set := by cases set
  sequencing := ⟨rfl, create_logged cfg, rfl, rfl⟩
  sequenced set := by cases set
  run := rfl
  matching := ⟨rfl, rfl, rfl, rfl, rfl⟩
  matched set := by cases set
  publishing := ⟨rfl, rfl, rfl⟩

section Carry

variable {mpsc mpsc' : MpscRing (Fin n) Order} {ingress ingress' : SpscRing Order} {egress egress' : SpscRing TradeEvent}
  {stopped stopped' : Bool}

theorem Handed.carry (handed : Handed cfg ingress seq orders) (calls : ingress'.calls = ingress.calls)
    (producer : ingress'.producer = ingress.producer) : Handed cfg ingress' seq orders :=
  ⟨handed.logged, calls.trans handed.calls, producer.trans handed.idle⟩

theorem Sequencing.carry {pc : SequencerPc} (sequencing : Sequencing cfg mpsc ingress seq stopped pc)
    (consumer : mpsc'.consumer = mpsc.consumer) (taken : mpsc'.taken = mpsc.taken) (dequeue : mpsc'.dequeue = mpsc.dequeue)
    (enqueue : stopped = true → mpsc'.enqueue = mpsc.enqueue) (calls : ingress'.calls = ingress.calls)
    (producer : ingress'.producer = ingress.producer) (flag : stopped = true → stopped' = true) :
    Sequencing cfg mpsc' ingress' seq stopped' pc := by
  cases pc with
  | check =>
    rcases sequencing with ⟨idle, handed⟩
    exact ⟨consumer.trans idle, taken ▸ handed.carry calls producer⟩
  | loadEnqueue =>
    rcases sequencing with ⟨set, idle, handed⟩
    exact ⟨flag set, consumer.trans idle, taken ▸ handed.carry calls producer⟩
  | loadDequeue e =>
    rcases sequencing with ⟨set, loaded, idle, handed⟩
    exact ⟨flag set, loaded.trans (enqueue set).symm, consumer.trans idle, taken ▸ handed.carry calls producer⟩
  | drain =>
    rcases sequencing with ⟨batch, handed⟩
    exact ⟨consumer ▸ batch, taken ▸ handed.carry calls producer⟩
  | journal o =>
    rcases sequencing with ⟨batch, before, last, handed⟩
    exact ⟨consumer ▸ batch, before, taken.trans last, handed.carry calls producer⟩
  | push o =>
    rcases sequencing with ⟨batch, logged, last, call⟩
    exact ⟨consumer ▸ batch, taken ▸ logged, by rw [taken, calls]; exact last, producer ▸ call⟩
  | flush | done | exited =>
    rcases sequencing with ⟨set, level, idle, handed⟩
    exact ⟨flag set, by rw [dequeue, enqueue set]; exact level, consumer.trans idle, taken ▸ handed.carry calls producer⟩

theorem Matching.carry {buf emitted : List TradeEvent} {submitted : List Order} {pc : MatcherPc}
    (matching : Matching ingress egress buf submitted emitted stopped pc) (consumer : ingress'.consumer = ingress.consumer)
    (taken : ingress'.taken = ingress.taken) (next : ingress'.next = ingress.next)
    (cursor : stopped = true → ingress'.cursor = ingress.cursor) (calls : egress'.calls = egress.calls)
    (producer : egress'.producer = egress.producer) (flag : stopped = true → stopped' = true) :
    Matching ingress' egress' buf submitted emitted stopped' pc := by
  cases pc <;> simp only [Matching, consumer, taken, next, calls, producer] at matching ⊢
  case check | drain | submit | emit | publish | flush | flushing => exact matching
  case loadCursor => exact ⟨flag matching.1, matching.2⟩
  case loadNext => exact ⟨flag matching.1, matching.2.1.trans (cursor matching.1).symm, matching.2.2⟩
  case done | exited => exact ⟨flag matching.1, matching.2.1.trans (cursor matching.1).symm, matching.2.2⟩

theorem Publishing.carry {batch : List TradeEvent} {batches : List (List TradeEvent)} {pc : PublisherPc}
    (publishing : Publishing egress batch batches stopped pc) (consumer : egress'.consumer = egress.consumer)
    (taken : egress'.taken = egress.taken) (next : egress'.next = egress.next)
    (cursor : stopped = true → egress'.cursor = egress.cursor) (flag : stopped = true → stopped' = true) :
    Publishing egress' batch batches stopped' pc := by
  cases pc <;> simp only [Publishing, consumer, taken, next] at publishing ⊢
  case check | drain | flush => exact publishing
  case loadCursor => exact ⟨flag publishing.1, publishing.2⟩
  case loadNext => exact ⟨flag publishing.1, publishing.2.1.trans (cursor publishing.1).symm, publishing.2.2⟩
  case last | exited => exact ⟨flag publishing.1, publishing.2.1.trans (cursor publishing.1).symm, publishing.2.2⟩

end Carry

theorem Logged.wal_eq {s : Server n} (logged : Logged cfg s.seq records) : s.wal = records := by
  have bound := walCapacity_small cfg
  have within := logged.within
  have count : s.seq.journal.count.toNat = records.length := by
    rw [logged.count, UInt64.toNat_ofNat', Nat.mod_eq_of_lt (by omega)]
  apply List.ext_getElem?
  intro i
  rw [wal, count, List.getElem?_map]
  by_cases low : i < records.length
  · have held : records[i]? = some records[i] := List.getElem?_eq_getElem low
    rw [List.getElem?_range low, held, logged.image, logged.writes]
    exact congrArg some (record_of_log held)
  · rw [List.getElem?_eq_none (Nat.not_lt.mp low), List.getElem?_eq_none]
    · rfl
    · rw [List.length_range]
      exact Nat.not_lt.mp low

theorem Sequencing.logged {mpsc : MpscRing (Fin n) Order} {ingress : SpscRing Order} {stopped : Bool} {pc : SequencerPc}
    (sequencing : Sequencing cfg mpsc ingress seq stopped pc) :
    ∃ orders, Logged cfg seq (stampFrom 0 orders) ∧ ingress.calls <+: stampFrom 0 orders ∧
      ∀ items, ingress.producer.call ≠ some (items, true) := by
  have handed {orders : List Order} (handed : Handed cfg ingress seq orders) :
      ∃ orders, Logged cfg seq (stampFrom 0 orders) ∧ ingress.calls <+: stampFrom 0 orders ∧
        ∀ items, ingress.producer.call ≠ some (items, true) := by
    refine ⟨orders, handed.logged, handed.calls ▸ List.prefix_rfl, ?_⟩
    intro items call
    rw [handed.idle] at call
    cases call
  cases pc with
  | check | drain => exact handed sequencing.2
  | loadEnqueue => exact handed sequencing.2.2
  | loadDequeue e | flush | done | exited => exact handed sequencing.2.2.2
  | journal o =>
    rcases sequencing with ⟨-, before, -, given⟩
    exact handed given
  | push o =>
    rcases sequencing with ⟨-, logged, last, call⟩
    refine ⟨mpsc.taken, logged, ⟨[o], last.symm⟩, ?_⟩
    intro items busy
    exact absurd (Prod.mk.inj (call _ busy)).2 (by decide)

theorem Matching.submitted_taken {ingress : SpscRing Order} {egress : SpscRing TradeEvent} {buf emitted : List TradeEvent}
    {submitted : List Order} {done : Bool} {pc : MatcherPc}
    (matching : Matching ingress egress buf submitted emitted done pc) : submitted <+: ingress.taken := by
  cases pc with
  | check | drain | emit | publish | flush | flushing => exact matching.2.1 ▸ List.prefix_rfl
  | loadCursor => exact matching.2.2.1 ▸ List.prefix_rfl
  | loadNext | done | exited => exact matching.2.2.2.1 ▸ List.prefix_rfl
  | submit o => exact ⟨[o], matching.2.1.symm⟩

end Server

end Titan
