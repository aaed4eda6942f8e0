import Titan.Pipeline.Sequencer
import Mathlib.Data.List.Induction
import Mathlib.Tactic.Common

namespace Titan

open Journaler

theorem Order.words_length (o : Order) : o.words.length = 5 := rfl

theorem Order.ofWords_words {o : Order} {w : Nat → UInt64} (same : ∀ j < 5, o.words[j]? = some (w j)) :
    Order.ofWords w = o := by
  have id := same 0 (by decide)
  have seq := same 1 (by decide)
  have price := same 2 (by decide)
  have quantities := same 3 (by decide)
  have tags := same 4 (by decide)
  simp only [Order.words, List.getElem?_cons_zero, List.getElem?_cons_succ, Option.some.injEq] at id seq price quantities tags
  have quantity := o.quantity.toNat_lt
  have remaining := o.remaining.toNat_lt
  have side := o.side.toNat_lt
  have type := o.type.toNat_lt
  cases o with
  | mk oid oseq oprice oquantity oremaining oside otype =>
    simp only at quantity remaining side type
    simp only [Order.ofWords, ← id, ← seq, ← price, ← quantities, ← tags, Order.mk.injEq]
    refine ⟨trivial, trivial, by simp, ?_, ?_, ?_, ?_⟩
    · apply UInt32.toNat_inj.mp
      simp only [UInt64.toNat_ofNat', UInt32.toNat_ofNat']
      omega
    · apply UInt32.toNat_inj.mp
      simp only [UInt64.toNat_ofNat', UInt32.toNat_ofNat']
      omega
    · apply UInt8.toNat_inj.mp
      simp only [UInt64.toNat_ofNat', UInt8.toNat_ofNat']
      omega
    · apply UInt8.toNat_inj.mp
      simp only [UInt64.toNat_ofNat', UInt8.toNat_ofNat']
      omega

namespace Journaler

/-- The file after a list of stores on a file of zeroes. -/
def applyWrites (writes : List (Nat × UInt64)) : Nat → UInt64 :=
  writes.foldl (fun file write => Function.update file write.1 write.2) fun _ => 0

theorem applyWrites_append_single (writes : List (Nat × UInt64)) (write : Nat × UInt64) :
    applyWrites (writes ++ [write]) = Function.update (applyWrites writes) write.1 write.2 := by
  simp [applyWrites]

theorem applyWrites_of_not_mem {writes : List (Nat × UInt64)} {word : Nat}
    (untouched : ∀ write ∈ writes, write.1 ≠ word) : applyWrites writes word = 0 := by
  induction writes using List.reverseRecOn with
  | nil => rfl
  | append_singleton writes write ih =>
    rw [applyWrites_append_single, Function.update_of_ne (untouched write (by simp)).symm]
    exact ih fun other member => untouched other (by simp [member])

theorem applyWrites_of_mem {writes : List (Nat × UInt64)} {word : Nat} {value : UInt64}
    (constant : ∀ write ∈ writes, write.1 = word → write.2 = value) (written : ∃ write ∈ writes, write.1 = word) :
    applyWrites writes word = value := by
  induction writes using List.reverseRecOn with
  | nil => simp at written
  | append_singleton writes write ih =>
    rw [applyWrites_append_single]
    by_cases here : write.1 = word
    · rw [← here, Function.update_self]
      exact constant write (by simp) here
    · rw [Function.update_of_ne (Ne.symm here)]
      rcases written with ⟨other, member, target⟩
      rcases List.mem_append.mp member with earlier | last
      · exact ih (fun w inside => constant w (by simp [inside])) ⟨other, earlier, target⟩
      · rw [List.mem_singleton.mp last] at target
        exact absurd target here

theorem applyWrites_append_of_not_mem {first second : List (Nat × UInt64)} {word : Nat}
    (untouched : ∀ write ∈ second, write.1 ≠ word) : applyWrites (first ++ second) word = applyWrites first word := by
  induction second using List.reverseRecOn with
  | nil => rw [List.append_nil]
  | append_singleton writes write ih =>
    rw [← List.append_assoc, applyWrites_append_single, Function.update_of_ne (untouched write (by simp)).symm]
    exact ih fun other member => untouched other (by simp [member])

def recordWrites (n : Nat) (o : Order) : List (Nat × UInt64) :=
  o.words.mapIdx (fun j w => (recordWord n j, w)) ++ [(COUNT_WORD, UInt64.ofNat (n + 1))]

def recordsWrites (n : Nat) : List Order → List (Nat × UInt64)
  | [] => []
  | o :: rest => recordWrites n o ++ recordsWrites (n + 1) rest

def createWrites : List (Nat × UInt64) :=
  [(MAGIC_WORD, WAL_MAGIC), (FORMAT_WORD, formatWord WAL_VERSION 0),
    (FORMAT_WORD, formatWord WAL_VERSION ORDER_BYTES), (FORMAT_WORD, formatWord WAL_VERSION ORDER_BYTES), (COUNT_WORD, 0)]

theorem recordWord_ne_header (i j word : Nat) (header : word < 8) : recordWord i j ≠ word := by
  simp only [recordWord, HEADER_BYTES, ORDER_BYTES]
  omega

theorem recordWord_inj {i i' j j' : Nat} (low : j < 5) (low' : j' < 5) (same : recordWord i j = recordWord i' j') :
    i = i' ∧ j = j' := by
  simp only [recordWord, HEADER_BYTES, ORDER_BYTES] at same
  omega

theorem mem_recordWrites {n : Nat} {o : Order} {write : Nat × UInt64} :
    write ∈ recordWrites n o ↔
      (∃ j, o.words[j]? = some write.2 ∧ write.1 = recordWord n j) ∨ write = (COUNT_WORD, UInt64.ofNat (n + 1)) := by
  simp only [recordWrites, List.mem_append, List.mem_singleton, List.mem_mapIdx]
  constructor
  · rintro (⟨j, low, rfl⟩ | last)
    · exact .inl ⟨j, List.getElem?_eq_getElem low, rfl⟩
    · exact .inr last
  · rintro (⟨j, held, target⟩ | last)
    · rcases List.getElem?_eq_some_iff.mp held with ⟨low, value⟩
      exact .inl ⟨j, low, by rw [value, ← target]⟩
    · exact .inr last

theorem mem_recordsWrites {n : Nat} {orders : List Order} {write : Nat × UInt64} :
    write ∈ recordsWrites n orders ↔ ∃ (i : Nat) (o : Order), orders[i]? = some o ∧ write ∈ recordWrites (n + i) o := by
  induction orders generalizing n with
  | nil => simp [recordsWrites]
  | cons o rest ih =>
    simp only [recordsWrites, List.mem_append, ih]
    constructor
    · rintro (here | ⟨i, o', held, later⟩)
      · exact ⟨0, o, rfl, here⟩
      · exact ⟨i + 1, o', held, by rw [← Nat.add_assoc, Nat.add_right_comm]; exact later⟩
    · rintro ⟨i, o', held, member⟩
      cases i with
      | zero =>
        cases held
        exact .inl member
      | succ i => exact .inr ⟨i, o', held, by rw [Nat.add_right_comm, Nat.add_assoc]; exact member⟩

theorem write_recordWord {orders : List Order} {i j : Nat} {o : Order} (low : j < 5) (held : orders[i]? = some o)
    {write : Nat × UInt64} (member : write ∈ createWrites ++ recordsWrites 0 orders)
    (target : write.1 = recordWord i j) : o.words[j]? = some write.2 := by
  rcases List.mem_append.mp member with header | records
  · have small : write.1 < 8 := by
      simp only [createWrites, List.mem_cons, List.not_mem_nil, or_false] at header
      rcases header with rfl | rfl | rfl | rfl | rfl <;> decide
    exact absurd target.symm (recordWord_ne_header i j write.1 small)
  · rcases mem_recordsWrites.mp records with ⟨i', o', held', inside⟩
    rw [Nat.zero_add] at inside
    rcases mem_recordWrites.mp inside with ⟨j', value, address⟩ | last
    · have low' : j' < 5 := (List.getElem?_eq_some_iff.mp value).1
      rcases recordWord_inj low low' (target.symm.trans address) with ⟨rfl, rfl⟩
      rw [held] at held'
      cases held'
      exact value
    · rw [last] at target
      exact absurd target.symm (recordWord_ne_header i j COUNT_WORD (by decide))

/-- What the count word says about the stores that came before it. -/
theorem count_of_take (n : Nat) (orders : List Order) (first : List (Nat × UInt64)) (m : Nat)
    (start : applyWrites first COUNT_WORD = UInt64.ofNat n) :
    ∃ k ≤ orders.length, applyWrites (first ++ (recordsWrites n orders).take m) COUNT_WORD = UInt64.ofNat (n + k) ∧
      (∀ i < k, ∀ j < 5, ∃ write ∈ (recordsWrites n orders).take m, write.1 = recordWord (n + i) j) ∧
      ((recordsWrites n orders).length ≤ m → k = orders.length) := by
  induction orders generalizing n first m with
  | nil => exact ⟨0, Nat.le_refl 0, by simpa [recordsWrites] using start, by simp, fun _ => rfl⟩
  | cons o rest ih =>
    have length : (recordWrites n o).length = 6 := by simp [recordWrites, Order.words_length]
    rw [recordsWrites, List.take_append, List.length_append, length]
    by_cases early : m < 6
    · refine ⟨0, Nat.zero_le _, ?_, by simp, fun _ => by omega⟩
      rw [Nat.sub_eq_zero_of_le (Nat.le_of_lt early), List.take_zero, List.append_nil, Nat.add_zero, ← start]
      apply applyWrites_append_of_not_mem
      intro write member
      have words : write ∈ o.words.mapIdx fun j w => (recordWord n j, w) := by
        have short : m ≤ (o.words.mapIdx fun j w => (recordWord n j, w)).length := by
          rw [List.length_mapIdx, Order.words_length]
          omega
        rw [recordWrites, List.take_append_of_le_length short] at member
        exact List.mem_of_mem_take member
      rcases List.mem_mapIdx.mp words with ⟨j, low, rfl⟩
      exact recordWord_ne_header n j COUNT_WORD (by decide)
    · have whole : (recordWrites n o).take m = recordWrites n o := List.take_of_length_le (by omega)
      have counted : applyWrites (first ++ recordWrites n o) COUNT_WORD = UInt64.ofNat (n + 1) := by
        rw [recordWrites, ← List.append_assoc, applyWrites_append_single, Function.update_self]
      rcases ih (n + 1) (first ++ recordWrites n o) (m - 6) counted with ⟨k, bound, count, written, full⟩
      refine ⟨k + 1, Nat.succ_le_succ bound, ?_, ?_, fun _ => congrArg (· + 1) (full (by omega))⟩
      · rw [whole, ← List.append_assoc, count, Nat.add_assoc, Nat.add_comm 1 k]
      · intro i low j small
        rw [whole]
        cases i with
        | zero =>
          refine ⟨(recordWord n j, o.words[j]), List.mem_append_left _ ?_, rfl⟩
          exact mem_recordWrites.mpr (.inl ⟨j, List.getElem?_eq_getElem small, rfl⟩)
        | succ i =>
          rcases written i (by omega) j small with ⟨write, member, target⟩
          exact ⟨write, List.mem_append_right _ member, by rw [target, Nat.add_assoc, Nat.add_comm 1 i]⟩

theorem copy_writes (j : Journaler) (n k : Nat) (values : List UInt64) :
    (j.copy (recordWord n k) values).writes = j.writes ++ values.mapIdx (fun i w => (recordWord n (k + i), w)) := by
  induction values generalizing j k with
  | nil => simp [copy]
  | cons value rest ih =>
    rw [copy, show recordWord n k + 1 = recordWord n (k + 1) from rfl, ih, store, List.mapIdx_cons, List.append_assoc]
    simp [Nat.add_assoc, Nat.add_comm 1]

theorem copy_frame (j : Journaler) (start : Nat) (values : List UInt64) :
    (j.copy start values).capacity = j.capacity ∧ (j.copy start values).mapBytes = j.mapBytes ∧
      (j.copy start values).syncedCount = j.syncedCount ∧ (j.copy start values).calls = j.calls ∧
      ∀ word < start, (j.copy start values).file word = j.file word := by
  induction values generalizing j start with
  | nil => exact ⟨rfl, rfl, rfl, rfl, fun _ _ => rfl⟩
  | cons value rest ih =>
    rcases ih (j.store start value) (start + 1) with ⟨capacity, bytes, synced, calls, file⟩
    refine ⟨capacity, bytes, synced, calls, fun word low => ?_⟩
    rw [copy, file word (by omega), store]
    exact Function.update_of_ne (by omega) _ _

theorem append_spec {j : Journaler} {n : Nat} (count : j.count = UInt64.ofNat n) (small : n + 1 < 2 ^ 64)
    (room : n < j.capacity) (o : Order) :
    ∃ j', j.append o = .ok j' ∧ j'.writes = j.writes ++ recordWrites n o ∧ j'.count = UInt64.ofNat (n + 1) ∧
      j'.capacity = j.capacity ∧ j'.mapBytes = j.mapBytes ∧ j'.syncedCount = j.syncedCount ∧ j'.calls = j.calls := by
  have value : j.count.toNat = n := by
    rw [count, UInt64.toNat_ofNat']
    exact Nat.mod_eq_of_lt (by omega)
  rcases j.copy_frame (recordWord n 0) o.words with ⟨capacity, bytes, synced, calls, file⟩
  have kept : (j.copy (recordWord n 0) o.words).count = UInt64.ofNat n := by
    rw [Journaler.count, file COUNT_WORD (by simp only [recordWord, COUNT_WORD, HEADER_BYTES]; omega)]
    exact count
  have bumped : UInt64.ofNat n + 1 = UInt64.ofNat (n + 1) := by
    rw [UInt64.ofNat_add]
    rfl
  simp only [append, value, ge_iff_le, if_neg (Nat.not_le.mpr room)]
  refine ⟨_, rfl, ?_, ?_, capacity, bytes, synced, calls⟩
  · rw [store, copy_writes, kept, bumped, recordWrites, List.append_assoc]
    simp
  · rw [kept, bumped]
    simp [Journaler.count, store]

theorem syncDirty_frame (pg : Nat) (j : Journaler) (flags : MsyncFlags) :
    (j.syncDirty pg flags).file = j.file ∧ (j.syncDirty pg flags).writes = j.writes ∧
      (j.syncDirty pg flags).capacity = j.capacity ∧ (j.syncDirty pg flags).mapBytes = j.mapBytes := by
  simp only [syncDirty, msync]
  split_ifs <;> exact ⟨rfl, rfl, rfl, rfl⟩

end Journaler

def PAGE_WORDS : Nat := 512

namespace Sequencer

def stampFrom (n : Nat) : List Order → List Order
  | [] => []
  | o :: rest => { o with seq := UInt64.ofNat n } :: stampFrom (n + 1) rest

theorem stampFrom_length (n : Nat) (orders : List Order) : (stampFrom n orders).length = orders.length := by
  induction orders generalizing n with
  | nil => rfl
  | cons o rest ih => simp [stampFrom, ih]

theorem stampFrom_seq {n i : Nat} {orders : List Order} {o : Order} (held : (stampFrom n orders)[i]? = some o) :
    o.seq = UInt64.ofNat (n + i) := by
  induction orders generalizing n i with
  | nil => simp [stampFrom] at held
  | cons first rest ih =>
    cases i with
    | zero =>
      simp only [stampFrom, List.getElem?_cons_zero, Option.some.injEq] at held
      rw [← held, Nat.add_zero]
    | succ i =>
      simp only [stampFrom, List.getElem?_cons_succ] at held
      rw [ih held, Nat.add_assoc, Nat.add_comm 1 i]

theorem cadence_frame (pg : Nat) (s : Sequencer) :
    (s.cadence pg).1.journal.file = s.journal.file ∧ (s.cadence pg).1.journal.writes = s.journal.writes ∧
      (s.cadence pg).1.journal.capacity = s.journal.capacity ∧
      (s.cadence pg).1.journal.mapBytes = s.journal.mapBytes ∧ (s.cadence pg).1.nextSeq = s.nextSeq := by
  rcases s.journal.syncDirty_frame pg .sync with ⟨file, writes, capacity, bytes⟩
  rcases s.journal.syncDirty_frame pg .async with ⟨file', writes', capacity', bytes'⟩
  simp only [cadence, flushSync, flushAsync]
  split
  · split
    · split
      · exact ⟨file, writes, capacity, bytes, rfl⟩
      · exact ⟨file', writes', capacity', bytes', rfl⟩
    · exact ⟨file', writes', capacity', bytes', rfl⟩
  · exact ⟨rfl, rfl, rfl, rfl, rfl⟩

theorem publish_spec (pg : Nat) {n : Nat} {s : Sequencer} (count : s.journal.count = UInt64.ofNat n)
    (seq : s.nextSeq = UInt64.ofNat n) (small : n + 1 < 2 ^ 64) (room : n < s.journal.capacity) (o : Order) :
    ∃ s' flush, s.publish pg o = .ok (s', flush) ∧
      s'.journal.writes = s.journal.writes ++ recordWrites n { o with seq := UInt64.ofNat n } ∧
      s'.journal.count = UInt64.ofNat (n + 1) ∧ s'.nextSeq = UInt64.ofNat (n + 1) ∧
      s'.journal.capacity = s.journal.capacity ∧ s'.journal.mapBytes = s.journal.mapBytes := by
  rcases append_spec count small room { o with seq := UInt64.ofNat n } with
    ⟨j, appended, writes, counted, capacity, bytes, _, _⟩
  have bumped : UInt64.ofNat n + 1 = UInt64.ofNat (n + 1) := by
    rw [UInt64.ofNat_add]
    rfl
  let u : Sequencer := { s with
    journal := j
    nextSeq := UInt64.ofNat n + 1
    ingress := s.ingress ++ [{ o with seq := UInt64.ofNat n }] }
  have call : s.publish pg o = .ok (u.cadence pg) := by
    simp only [publish, journalOrder, seq, appended]
    rfl
  rcases u.cadence_frame pg with ⟨file, writes', capacity', bytes', seq'⟩
  exact ⟨(u.cadence pg).1, (u.cadence pg).2, call, writes'.trans writes, (congrFun file COUNT_WORD).trans counted,
    seq'.trans bumped, capacity'.trans capacity, bytes'.trans bytes⟩

theorem publishAll_spec (pg : Nat) (orders : List Order) {n : Nat} {s : Sequencer}
    (count : s.journal.count = UInt64.ofNat n) (seq : s.nextSeq = UInt64.ofNat n)
    (small : n + orders.length < 2 ^ 64) (room : n + orders.length ≤ s.journal.capacity) :
    ∃ s', s.publishAll pg orders = .ok s' ∧
      s'.journal.writes = s.journal.writes ++ recordsWrites n (stampFrom n orders) ∧
      s'.journal.mapBytes = s.journal.mapBytes := by
  induction orders generalizing n s with
  | nil => exact ⟨s, rfl, by simp [stampFrom, recordsWrites], rfl⟩
  | cons o rest ih =>
    simp only [List.length_cons] at small room
    rcases publish_spec pg count seq (by omega) (by omega) o with
      ⟨s₁, flush, published, writes, count₁, seq₁, capacity, bytes⟩
    rcases ih count₁ seq₁ (by omega) (by omega) with ⟨s', rest', writes', bytes'⟩
    refine ⟨s', ?_, ?_, bytes'.trans bytes⟩
    · rw [publishAll, published]
      exact rest'
    · rw [writes', writes, stampFrom, recordsWrites, List.append_assoc]

/-- The file after a crash: page by page, what it held at the moment the page was last written back. -/
def crashImage (writes : List (Nat × UInt64)) (moment : Nat → Nat) (word : Nat) : UInt64 :=
  applyWrites (writes.take (moment (word / PAGE_WORDS))) word

def Present (records : List Order) (file : Nat → UInt64) (i : Nat) : Prop :=
  ∃ o, records[i]? = some o ∧ ∀ j < 5, o.words[j]? = some (file (recordWord i j))

def submitted (wal : Journaler) : List Order × Nat := replay (fun given o => given ++ [o]) wal []

/-- Recovery submits exactly the records before the first one that is damaged. -/
structure Recovers (records : List Order) (wal : Journaler) : Prop where
  exact : (submitted wal).1 = records.take (submitted wal).2
  whole : ∀ i < (submitted wal).2, Present records wal.file i
  all : ∀ i < wal.count.toNat, (∀ k ≤ i, Present records wal.file k) → i < (submitted wal).2

theorem Present.record {records : List Order} {file : Nat → UInt64} {i : Nat} {o : Order}
    (present : Present records file i) (held : records[i]? = some o) : record file i = o := by
  rcases present with ⟨o', held', words⟩
  rw [held] at held'
  cases held'
  exact Order.ofWords_words words

theorem replayLoop_spec (file : Nat → UInt64) (base : Seq) (n i : Nat) (given : List Order) :
    ∃ d, i ≤ d ∧ d ≤ i + n ∧
      replayLoop (fun given o => given ++ [o]) file base n i given =
        (given ++ (List.range' i (d - i)).map (record file), d) ∧
      (∀ k, i ≤ k → k < d → (record file k).seq = base + UInt64.ofNat k) ∧
      (d < i + n → (record file d).seq ≠ base + UInt64.ofNat d) := by
  induction n generalizing i given with
  | zero => exact ⟨i, Nat.le_refl _, Nat.le_refl _, by simp [replayLoop], fun k low high => by omega, fun high => by omega⟩
  | succ n ih =>
    rw [replayLoop]
    by_cases broken : (record file i).seq ≠ base + UInt64.ofNat i
    · refine ⟨i, Nat.le_refl _, by omega, by simp [broken], fun k low high => by omega, fun _ => broken⟩
    · rcases ih (i + 1) (given ++ [record file i]) with ⟨d, low, high, result, passed, stopped⟩
      refine ⟨d, by omega, by omega, ?_, ?_, fun bound => stopped (by omega)⟩
      · simp only [if_neg broken, result]
        rw [show d - i = (d - (i + 1)) + 1 by omega, List.range'_succ]
        simp
      · intro k above below
        rcases Nat.lt_or_eq_of_le above with later | rfl
        · exact passed k later below
        · exact Decidable.not_not.mp broken

theorem submitted_spec (wal : Journaler) :
    ∃ d ≤ wal.count.toNat, submitted wal = ((List.range d).map (record wal.file), d) ∧
      (∀ k < d, (record wal.file k).seq = (record wal.file 0).seq + UInt64.ofNat k) ∧
      (d < wal.count.toNat → (record wal.file d).seq ≠ (record wal.file 0).seq + UInt64.ofNat d) := by
  by_cases empty : wal.count = 0
  · refine ⟨0, Nat.zero_le _, by simp [submitted, replay, empty], by simp, ?_⟩
    simp [empty]
  · rcases replayLoop_spec wal.file (record wal.file 0).seq wal.count.toNat 0 [] with
      ⟨d, _, bound, result, passed, stopped⟩
    rw [Nat.zero_add] at bound stopped
    refine ⟨d, bound, ?_, fun k below => passed k (Nat.zero_le k) below, stopped⟩
    simp only [submitted, replay, if_neg empty, result]
    simp [List.range_eq_range']

section Crash

variable {records : List Order} {moment : Nat → Nat}

def logWrites (records : List Order) : List (Nat × UInt64) := createWrites ++ recordsWrites 0 records

theorem crashImage_stored {i j : Nat} {o : Order} (low : j < 5) (held : records[i]? = some o)
    (stored : ∃ write ∈ (logWrites records).take (moment (recordWord i j / PAGE_WORDS)), write.1 = recordWord i j) :
    o.words[j]? = some (crashImage (logWrites records) moment (recordWord i j)) := by
  have value : o.words[j]? = some o.words[j] := List.getElem?_eq_getElem low
  rw [value, crashImage, applyWrites_of_mem _ stored]
  intro write member target
  have same := write_recordWord low held (List.mem_of_mem_take member) target
  rw [value] at same
  exact (Option.some.inj same).symm

theorem crashImage_count (records : List Order) (moment : Nat → Nat) :
    ∃ k ≤ records.length, crashImage (logWrites records) moment COUNT_WORD = UInt64.ofNat k ∧
      (∀ i < k, ∀ j < 5, ∃ write ∈ (logWrites records).take (moment 0), write.1 = recordWord i j) ∧
      ((logWrites records).length ≤ moment 0 → k = records.length) := by
  have page : COUNT_WORD / PAGE_WORDS = 0 := rfl
  rw [crashImage, page, logWrites, List.take_append, List.length_append]
  by_cases early : moment 0 < 5
  · have short : moment 0 < createWrites.length := early
    refine ⟨0, Nat.zero_le _, ?_, by simp, fun _ => by omega⟩
    rw [show moment 0 - createWrites.length = 0 from Nat.sub_eq_zero_of_le (Nat.le_of_lt early), List.take_zero,
      List.append_nil]
    apply applyWrites_of_not_mem
    intro write member
    have first : write ∈ createWrites.take 4 := by
      have shorter : createWrites.take (moment 0) = (createWrites.take 4).take (moment 0) := by
        rw [List.take_take, Nat.min_eq_left (by omega)]
      rw [shorter] at member
      exact List.mem_of_mem_take member
    simp only [createWrites, List.take_succ_cons, List.take_zero, List.mem_cons, List.not_mem_nil, or_false] at first
    rcases first with rfl | rfl | rfl | rfl <;> decide
  · have long : createWrites.length ≤ moment 0 := Nat.not_lt.mp early
    rw [List.take_of_length_le long]
    rcases count_of_take 0 records createWrites (moment 0 - createWrites.length) rfl with
      ⟨k, bound, count, written, full⟩
    rw [Nat.zero_add] at count
    refine ⟨k, bound, count, fun i low j small => ?_, fun _ => full (by omega)⟩
    rcases written i low j small with ⟨write, member, target⟩
    rw [Nat.zero_add] at target
    exact ⟨write, List.mem_append_right _ member, target⟩

/-- Record 0 shares its page with the header, so it is there whenever the header counts it. -/
theorem present_zero (counted : 0 < (crashImage (logWrites records) moment COUNT_WORD).toNat) :
    Present records (crashImage (logWrites records) moment) 0 := by
  rcases crashImage_count records moment with ⟨k, bound, count, written, _⟩
  have positive : 0 < k := by
    apply Nat.pos_of_ne_zero
    intro zero
    rw [count, zero] at counted
    simp at counted
  have held : records[0]? = some records[0] := List.getElem?_eq_getElem (by omega)
  refine ⟨_, held, fun j low => crashImage_stored low held ?_⟩
  have page : recordWord 0 j / PAGE_WORDS = 0 := by
    simp only [recordWord, HEADER_BYTES, ORDER_BYTES, PAGE_WORDS]
    omega
  rw [page]
  exact written 0 positive j low

/-- Where the first damaged record lies across two pages, the one with its `seq` is stale. -/
def TearTakesSeq (records : List Order) (moment : Nat → Nat) : Prop :=
  ∀ i < (crashImage (logWrites records) moment COUNT_WORD).toNat,
    (∀ k < i, Present records (crashImage (logWrites records) moment) k) →
    ¬Present records (crashImage (logWrites records) moment) i →
    ∀ write ∈ (logWrites records).take (moment (recordWord i 1 / PAGE_WORDS)), write.1 ≠ recordWord i 1

structure Crashed (records : List Order) (moment : Nat → Nat) (wal : Journaler) : Prop where
  small : records.length < 2 ^ 64
  stamped : ∀ (i : Nat) o, records[i]? = some o → o.seq = UInt64.ofNat i
  image : wal.file = crashImage (logWrites records) moment

namespace Crashed

variable {wal : Journaler}

theorem record_seq_of_present {i : Nat} (crashed : Crashed records moment wal) (present : Present records wal.file i) :
    (record wal.file i).seq = UInt64.ofNat i := by
  have recorded := present
  rcases present with ⟨o, held, words⟩
  rw [recorded.record held, crashed.stamped i o held]

theorem count_le (crashed : Crashed records moment wal) : wal.count.toNat ≤ records.length := by
  rcases crashImage_count records moment with ⟨k, bound, count, _, _⟩
  rw [Journaler.count, crashed.image, count, UInt64.toNat_ofNat']
  exact Nat.le_trans (Nat.mod_le k _) bound

theorem record_seq_of_stale {i : Nat} (crashed : Crashed records moment wal)
    (stale : ∀ write ∈ (logWrites records).take (moment (recordWord i 1 / PAGE_WORDS)), write.1 ≠ recordWord i 1) :
    (record wal.file i).seq = 0 := by
  rw [crashed.image]
  exact applyWrites_of_not_mem stale

theorem record_seq_of_stored {i : Nat} (crashed : Crashed records moment wal) (counted : i < wal.count.toNat)
    (stored : ∃ write ∈ (logWrites records).take (moment (recordWord i 1 / PAGE_WORDS)), write.1 = recordWord i 1) :
    (record wal.file i).seq = UInt64.ofNat i := by
  have low : i < records.length := Nat.lt_of_lt_of_le counted crashed.count_le
  have held : records[i]? = some records[i] := List.getElem?_eq_getElem low
  have word := crashImage_stored (by decide) held stored
  rw [crashed.image]
  have seq := crashed.stamped i _ held
  simp only [Order.words, List.getElem?_cons_succ, List.getElem?_cons_zero, Option.some.injEq] at word
  rw [← seq, word]
  rfl

theorem base_zero (crashed : Crashed records moment wal) (counted : 0 < wal.count.toNat) : (record wal.file 0).seq = 0 := by
  have present : Present records wal.file 0 := by
    rw [crashed.image]
    apply present_zero
    rwa [Journaler.count, crashed.image] at counted
  exact crashed.record_seq_of_present present

theorem ofNat_ne_zero {i : Nat} (crashed : Crashed records moment wal) (positive : 0 < i)
    (counted : i < wal.count.toNat) : UInt64.ofNat i ≠ 0 := by
  have bound := crashed.count_le
  have small := crashed.small
  intro zero
  have value := congrArg UInt64.toNat zero
  rw [UInt64.toNat_ofNat', Nat.mod_eq_of_lt (by omega)] at value
  exact absurd value (by simp; omega)

theorem recovers_of_tearTakesSeq (crashed : Crashed records moment wal) (takes : TearTakesSeq records moment) :
    Recovers records wal := by
  have image := crashed.image
  rcases submitted_spec wal with ⟨d, within, result, passed, stopped⟩
  have base : 0 < wal.count.toNat → (record wal.file 0).seq = 0 := crashed.base_zero
  have whole : ∀ i < d, Present records wal.file i := by
    intro i
    induction i using Nat.strongRecOn with
    | ind i ih =>
      intro low
      by_contra damaged
      have earlier : ∀ k < i, Present records wal.file k := fun k less => ih k less (by omega)
      rw [image] at damaged earlier
      have counted : i < wal.count.toNat := by omega
      have stale := takes i (by rwa [Journaler.count, image] at counted) earlier damaged
      have zero := crashed.record_seq_of_stale stale
      have seq := passed i low
      rw [base (by omega), UInt64.zero_add, zero] at seq
      have positive : 0 < i := by
        apply Nat.pos_of_ne_zero
        intro first
        subst first
        apply damaged
        apply present_zero
        rwa [Journaler.count, image] at counted
      exact crashed.ofNat_ne_zero positive counted seq.symm
  refine ⟨?_, ?_, ?_⟩
  · rw [result]
    apply List.ext_getElem?
    intro i
    by_cases low : i < d
    · rcases whole i low with ⟨o, held, words⟩
      have recorded := (whole i low).record held
      rw [List.getElem?_take_of_lt low, held, List.getElem?_map, List.getElem?_range low, Option.map_some, recorded]
    · simp only [List.getElem?_take, if_neg low]
      rw [List.getElem?_eq_none (by simp; omega)]
  · rw [result]
    exact whole
  · rw [result]
    intro i counted present
    by_contra high
    have here := present d (by omega)
    have seq := crashed.record_seq_of_present here
    apply stopped (by omega)
    rw [seq, base (by omega), UInt64.zero_add]

theorem tearTakesSeq_of_recovers (crashed : Crashed records moment wal) (recovers : Recovers records wal) :
    TearTakesSeq records moment := by
  have image := crashed.image
  rcases submitted_spec wal with ⟨d, within, result, passed, stopped⟩
  rcases recovers with ⟨_, whole, _⟩
  rw [result] at whole
  intro i counted earlier damaged write member target
  rw [← image] at counted earlier damaged
  have base := crashed.base_zero (Nat.lt_of_le_of_lt (Nat.zero_le i) counted)
  have limit : d ≤ i := by
    by_contra high
    exact damaged (whole i (by omega))
  have seq : (record wal.file d).seq = UInt64.ofNat d := by
    rcases Nat.lt_or_eq_of_le limit with less | equal
    · exact crashed.record_seq_of_present (earlier d less)
    · rw [equal]
      exact crashed.record_seq_of_stored counted ⟨write, member, target⟩
  apply stopped (Nat.lt_of_le_of_lt limit counted)
  rw [seq, base, UInt64.zero_add]

end Crashed

theorem publishAll_fits {pg : Nat} (orders : List Order) {n : Nat} {s s' : Sequencer}
    (count : s.journal.count = UInt64.ofNat n) (seq : s.nextSeq = UInt64.ofNat n) (within : n ≤ s.journal.capacity)
    (small : s.journal.capacity < 2 ^ 64) (published : s.publishAll pg orders = .ok s') :
    n + orders.length ≤ s.journal.capacity := by
  induction orders generalizing n s with
  | nil => exact within
  | cons o rest ih =>
    by_cases room : n < s.journal.capacity
    · rcases publish_spec pg count seq (by omega) room o with ⟨s₁, flush, once, writes, count₁, seq₁, capacity, bytes⟩
      rw [publishAll, once] at published
      have more := ih count₁ seq₁ (by omega) (by omega) published
      simp only [List.length_cons]
      omega
    · have full : s.journal.count.toNat ≥ s.journal.capacity := by
        rw [count, UInt64.toNat_ofNat', Nat.mod_eq_of_lt (by omega)]
        omega
      simp only [publishAll, publish, journalOrder, append, if_pos full] at published
      cases published

theorem crashed_of_published {capacity flushInterval syncEvery pg bytes : Nat} {orders : List Order} {s : Sequencer}
    {path : String} {wal : Journaler} (fits : HEADER_BYTES + capacity * ORDER_BYTES < 2 ^ 64)
    (published : (Sequencer.create (Journaler.create capacity) flushInterval syncEvery).publishAll pg orders = .ok s)
    (accepted : Journaler.ofFile path bytes (crashImage s.journal.writes moment) = .ok wal) :
    Crashed (stampFrom 0 orders) moment wal := by
  have bound : capacity < 2 ^ 64 := by
    simp only [HEADER_BYTES, ORDER_BYTES] at fits
    omega
  have within := publishAll_fits (n := 0) orders rfl rfl (Nat.zero_le _) bound published
  have short : 0 + orders.length < 2 ^ 64 := Nat.lt_of_le_of_lt within bound
  rcases publishAll_spec pg (n := 0) orders rfl rfl short within with ⟨s', again, writes, _⟩
  rw [published] at again
  cases again
  refine ⟨?_, ?_, ?_⟩
  · rw [stampFrom_length, ← Nat.zero_add orders.length]
    exact short
  · intro i o held
    rw [stampFrom_seq held, Nat.zero_add]
  · have image : wal.file = crashImage s.journal.writes moment := by
      simp only [ofFile] at accepted
      split at accepted
      · cases accepted
      · cases checked : validate (crashImage s.journal.writes moment) with
        | error message =>
          rw [checked] at accepted
          cases accepted
        | ok _ =>
          rw [checked] at accepted
          cases accepted
          rfl
    rw [image, writes]
    rfl

/-- Recovery from a crash image submits exactly the undamaged front of the log if and only
    if the first damaged record lost its `seq` with it. -/
theorem replay_recovers_iff {capacity flushInterval syncEvery pg : Nat} {orders : List Order} {s : Sequencer}
    {path : String} {wal : Journaler} {moment : Nat → Nat} (fits : HEADER_BYTES + capacity * ORDER_BYTES < 2 ^ 64)
    (published : (Sequencer.create (Journaler.create capacity) flushInterval syncEvery).publishAll pg orders = .ok s)
    (accepted : Journaler.ofFile path s.journal.mapBytes (crashImage s.journal.writes moment) = .ok wal) :
    Recovers (stampFrom 0 orders) wal ↔ TearTakesSeq (stampFrom 0 orders) moment := by
  have crashed := crashed_of_published fits published accepted
  exact ⟨crashed.tearTakesSeq_of_recovers, crashed.recovers_of_tearTakesSeq⟩

theorem replay_recovers_iff_two :
    ∃ s wal, (Sequencer.create (Journaler.create 4) 1 1).publishAll 4096 [default, default] = .ok s ∧
      Journaler.ofFile "titan.wal" s.journal.mapBytes (crashImage s.journal.writes fun _ => 11) = .ok wal ∧
      (Recovers (stampFrom 0 [default, default]) wal ↔ TearTakesSeq (stampFrom 0 [default, default]) fun _ => 11) := by
  have fits : HEADER_BYTES + 4 * ORDER_BYTES < 2 ^ 64 := by decide
  have run : ∃ s wal, (Sequencer.create (Journaler.create 4) 1 1).publishAll 4096 [default, default] = .ok s ∧
      Journaler.ofFile "titan.wal" s.journal.mapBytes (crashImage s.journal.writes fun _ => 11) = .ok wal :=
    ⟨_, _, rfl, rfl⟩
  rcases run with ⟨s, wal, published, accepted⟩
  exact ⟨s, wal, published, accepted, replay_recovers_iff fits published accepted⟩

/-- 101 sells; record 100 ends with its last word on the second page. -/
def sells : List Order := List.replicate 101 { (default : Order) with side := Side.SELL }

def firstPageOnly (page : Nat) : Nat := if page = 0 then 1000 else 0

theorem stampFrom_replicate (n m : Nat) (o : Order) {i : Nat} (low : i < m) :
    (stampFrom n (List.replicate m o))[i]? = some { o with seq := UInt64.ofNat (n + i) } := by
  induction m generalizing n i with
  | zero => omega
  | succ m ih =>
    rw [List.replicate_succ, stampFrom]
    cases i with
    | zero => rfl
    | succ i => rw [List.getElem?_cons_succ, ih (n + 1) (by omega), Nat.add_assoc, Nat.add_comm 1 i]

theorem recordsWrites_length (n : Nat) (orders : List Order) : (recordsWrites n orders).length = 6 * orders.length := by
  induction orders generalizing n with
  | nil => rfl
  | cons o rest ih =>
    simp only [recordsWrites, List.length_append, ih, recordWrites, List.length_mapIdx, Order.words_length,
      List.length_cons, List.length_nil]
    omega

theorem sells_log_length : (logWrites (stampFrom 0 sells)).length = 611 := by
  rw [logWrites, List.length_append, recordsWrites_length, stampFrom_length, sells, List.length_replicate]
  rfl

theorem sells_torn : ¬TearTakesSeq (stampFrom 0 sells) firstPageOnly := by
  have length : (stampFrom 0 sells).length = 101 := by rw [stampFrom_length, sells, List.length_replicate]
  rcases crashImage_count (stampFrom 0 sells) firstPageOnly with ⟨k, bound, count, written, full⟩
  have all : k = 101 := (full (by rw [sells_log_length]; decide)).trans length
  subst all
  have stored : ∀ i < 101, ∀ j < 5, recordWord i j / PAGE_WORDS = 0 →
      ∃ write ∈ (logWrites (stampFrom 0 sells)).take (firstPageOnly (recordWord i j / PAGE_WORDS)),
        write.1 = recordWord i j := by
    intro i low j small page
    rw [page]
    exact written i low j small
  intro takes
  have counted : 100 < (crashImage (logWrites (stampFrom 0 sells)) firstPageOnly COUNT_WORD).toNat := by
    rw [count]
    decide
  rcases stored 100 (by decide) 1 (by decide) (by decide) with ⟨write, member, target⟩
  refine takes 100 counted ?_ ?_ write member target
  · intro i low
    have held := stampFrom_replicate 0 101 { (default : Order) with side := Side.SELL } (show i < 101 by omega)
    refine ⟨_, held, fun j small => crashImage_stored small held (stored i (by omega) j small ?_)⟩
    simp only [recordWord, HEADER_BYTES, ORDER_BYTES, PAGE_WORDS]
    omega
  · intro present
    rcases present with ⟨o, held, words⟩
    have same := stampFrom_replicate 0 101 { (default : Order) with side := Side.SELL } (show 100 < 101 by decide)
    rw [show stampFrom 0 (List.replicate 101 { (default : Order) with side := Side.SELL }) = stampFrom 0 sells from rfl,
      held] at same
    cases same
    have last := words 4 (by decide)
    have stale : crashImage (logWrites (stampFrom 0 sells)) firstPageOnly (recordWord 100 4) = 0 :=
      applyWrites_of_not_mem (by simp [firstPageOnly, recordWord, HEADER_BYTES, ORDER_BYTES, PAGE_WORDS])
    rw [stale] at last
    cases last

theorem crashImage_header {word : Nat} (header : word < 2) (created : createWrites.length ≤ moment 0) :
    crashImage (logWrites records) moment word = applyWrites createWrites word := by
  have page : word / PAGE_WORDS = 0 := Nat.div_eq_of_lt (Nat.lt_trans header (by decide))
  rw [crashImage, page, logWrites, List.take_append, List.take_of_length_le created]
  apply applyWrites_append_of_not_mem
  intro write member
  rcases mem_recordsWrites.mp (List.mem_of_mem_take member) with ⟨i, o, _, inside⟩
  rcases mem_recordWrites.mp inside with ⟨j, _, target⟩ | last
  · rw [target]
    exact recordWord_ne_header _ j word (by omega)
  · rw [last]
    simp only [COUNT_WORD]
    omega

theorem sells_replay_fails :
    ∃ s wal, (Sequencer.create (Journaler.create 128) 1024 64).publishAll 4096 sells = .ok s ∧
      Journaler.ofFile "titan.wal" s.journal.mapBytes (crashImage s.journal.writes firstPageOnly) = .ok wal ∧
      ¬Recovers (stampFrom 0 sells) wal := by
  have length : sells.length = 101 := List.length_replicate
  rcases publishAll_spec 4096 (n := 0) (s := Sequencer.create (Journaler.create 128) 1024 64) sells rfl rfl
    (by rw [length]; decide) (by rw [length]; decide) with ⟨s, published, writes, bytes⟩
  replace writes : s.journal.writes = logWrites (stampFrom 0 sells) := writes
  have created : createWrites.length ≤ firstPageOnly 0 := by decide
  have magic : crashImage s.journal.writes firstPageOnly MAGIC_WORD = WAL_MAGIC := by
    rw [writes, crashImage_header (by decide) created]
    rfl
  have format : crashImage s.journal.writes firstPageOnly FORMAT_WORD = formatWord WAL_VERSION ORDER_BYTES := by
    rw [writes, crashImage_header (by decide) created]
    rfl
  have valid : validate (crashImage s.journal.writes firstPageOnly) = .ok () := by
    simp only [validate, magic, format]
    rfl
  have accepted : ∃ wal, Journaler.ofFile "titan.wal" s.journal.mapBytes
      (crashImage s.journal.writes firstPageOnly) = .ok wal := by
    rw [bytes, ofFile, valid]
    exact ⟨_, rfl⟩
  rcases accepted with ⟨wal, opened⟩
  refine ⟨s, wal, published, opened, fun recovers => ?_⟩
  have crashed := crashed_of_published (by decide) published opened
  exact sells_torn (crashed.tearTakesSeq_of_recovers recovers)

end Crash

end Sequencer

end Titan
