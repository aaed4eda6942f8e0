import Titan.Pipeline.Mapping

namespace Titan

open Journaler

namespace Journaler

variable {j : Journaler} {n : Nat}

structure Extended (file file' : Nat → UInt64) (n : Nat) (records : List Order) : Prop where
  header : ∀ word < COUNT_WORD, file' word = file word
  earlier : ∀ i < n, record file' i = record file i
  later : ∀ (i : Nat) o, records[i]? = some o → record file' (n + i) = o

theorem Extended.refl (file : Nat → UInt64) (n : Nat) : Extended file file n [] where
  header _ _ := rfl
  earlier _ _ := rfl
  later i o held := by simp at held

theorem Extended.cons {file file₁ file₂ : Nat → UInt64} {o : Order} {rest : List Order} (first : Extended file file₁ n [o])
    (more : Extended file₁ file₂ (n + 1) rest) : Extended file file₂ n (o :: rest) where
  header word low := (more.header word low).trans (first.header word low)
  earlier i low := (more.earlier i (by omega)).trans (first.earlier i low)
  later i o' held := by
    cases i with
    | zero =>
      rw [more.earlier (n + 0) (by omega)]
      exact first.later 0 o' held
    | succ i =>
      rw [show n + (i + 1) = n + 1 + i by omega]
      exact more.later i o' held

theorem Extended.records {file file' : Nat → UInt64} {records : List Order} (extended : Extended file file' n records) :
    (List.range (n + records.length)).map (record file') = (List.range n).map (record file) ++ records := by
  rw [List.range_add, List.map_append, List.map_map]
  congr 1
  · apply List.map_congr_left
    intro i member
    exact extended.earlier i (List.mem_range.mp member)
  · apply List.ext_getElem?
    intro i
    by_cases low : i < records.length
    · rw [List.getElem?_map, List.getElem?_range low, Option.map_some, List.getElem?_eq_getElem low, Function.comp_apply,
        extended.later i _ (List.getElem?_eq_getElem low)]
    · rw [List.getElem?_eq_none (by simp; omega), List.getElem?_eq_none (by omega)]

theorem record_congr {file file' : Nat → UInt64} {i : Nat} (same : ∀ k < 5, file' (recordWord i k) = file (recordWord i k)) :
    record file' i = record file i := by
  simp only [record, Order.ofWords, same 0 (by decide), same 1 (by decide), same 2 (by decide), same 3 (by decide),
    same 4 (by decide)]

theorem copy_at {start : Nat} {values : List UInt64} {i : Nat} {value : UInt64} (j : Journaler)
    (held : values[i]? = some value) : (j.copy start values).file (start + i) = value := by
  induction values generalizing j start i with
  | nil => simp at held
  | cons first rest ih =>
    rw [copy]
    cases i with
    | zero =>
      rcases (j.store start first).copy_frame (start + 1) rest with ⟨-, -, -, -, kept⟩
      rw [kept (start + 0) (by omega)]
      simpa [store] using held
    | succ i =>
      rw [show start + (i + 1) = start + 1 + i by omega]
      exact ih (j.store start first) held

theorem append_extends (count : j.count = UInt64.ofNat n) (small : n < 2 ^ 64) (room : n < j.capacity) (o : Order) :
    ∃ j', j.append o = .ok j' ∧ j'.count = UInt64.ofNat (n + 1) ∧ j'.capacity = j.capacity ∧
      Extended j.file j'.file n [o] := by
  have value : j.count.toNat = n := by
    rw [count, UInt64.toNat_ofNat', Nat.mod_eq_of_lt small]
  rcases j.copy_frame (recordWord n 0) o.words with ⟨capacity, -, -, -, kept⟩
  have cursor : (j.copy (recordWord n 0) o.words).count = UInt64.ofNat n := by
    rw [Journaler.count, kept COUNT_WORD (by simp only [recordWord, COUNT_WORD, HEADER_BYTES]; omega)]
    exact count
  have bumped : UInt64.ofNat n + 1 = UInt64.ofNat (n + 1) := by
    rw [UInt64.ofNat_add]
    rfl
  let j' := (j.copy (recordWord n 0) o.words).store COUNT_WORD (UInt64.ofNat n + 1)
  have records : ∀ i, record j'.file i = record (j.copy (recordWord n 0) o.words).file i := by
    intro i
    apply record_congr
    intro k _
    exact Function.update_of_ne (recordWord_ne_header i k COUNT_WORD (by decide)) ..
  refine ⟨j', ?_, ?_, capacity, ?_, ?_, ?_⟩
  · simp only [append, value, ge_iff_le, if_neg (Nat.not_le.mpr room), cursor]
    rfl
  · rw [← bumped]
    simp [j', Journaler.count, store]
  · intro word low
    have header : word < recordWord n 0 := by
      simp only [recordWord, COUNT_WORD, HEADER_BYTES] at *
      omega
    rw [← kept word header]
    exact Function.update_of_ne (Nat.ne_of_lt low) ..
  · intro i low
    rw [records]
    apply record_congr
    intro k small
    apply kept
    simp only [recordWord, HEADER_BYTES, ORDER_BYTES]
    omega
  · intro i o' held
    have first : i = 0 := by
      have bound := (List.getElem?_eq_some_iff.mp held).1
      simpa using bound
    subst first
    rw [Nat.add_zero, records]
    have same : o = o' := by simpa using held
    subst same
    apply Order.ofWords_words
    intro k low
    have word : o.words[k]? = some o.words[k] := List.getElem?_eq_getElem low
    rw [word, show recordWord n k = recordWord n 0 + k from rfl, copy_at j word]

end Journaler

namespace Sequencer

variable {s : Sequencer} {n m : Nat}

theorem cadence_ingress (pg : Nat) (s : Sequencer) : (s.cadence pg).1.ingress = s.ingress := by
  simp only [cadence]
  split
  · split
    · split <;> rfl
    · rfl
  · rfl

theorem publish_extends (pg : Nat) (count : s.journal.count = UInt64.ofNat n) (seq : s.nextSeq = UInt64.ofNat m)
    (small : n < 2 ^ 64) (room : n < s.journal.capacity) (o : Order) :
    ∃ s' flush, s.publish pg o = .ok (s', flush) ∧ s'.journal.count = UInt64.ofNat (n + 1) ∧
      s'.nextSeq = UInt64.ofNat (m + 1) ∧ s'.journal.capacity = s.journal.capacity ∧
      s'.ingress = s.ingress ++ [{ o with seq := UInt64.ofNat m }] ∧
      Extended s.journal.file s'.journal.file n [{ o with seq := UInt64.ofNat m }] := by
  rcases append_extends count small room { o with seq := UInt64.ofNat m } with ⟨j, appended, counted, capacity, extended⟩
  have bumped : UInt64.ofNat m + 1 = UInt64.ofNat (m + 1) := by
    rw [UInt64.ofNat_add]
    rfl
  let u : Sequencer := { s with
    journal := j
    nextSeq := UInt64.ofNat m + 1
    ingress := s.ingress ++ [{ o with seq := UInt64.ofNat m }] }
  have call : s.publish pg o = .ok (u.cadence pg) := by
    simp only [publish, journalOrder, seq, appended]
    rfl
  rcases u.cadence_frame pg with ⟨file, -, capacity', -, seq'⟩
  refine ⟨(u.cadence pg).1, (u.cadence pg).2, call, (congrFun file COUNT_WORD).trans counted, seq'.trans bumped,
    capacity'.trans capacity, u.cadence_ingress pg, ?_⟩
  rw [file]
  exact extended

theorem publishAll_extends (pg : Nat) (orders : List Order) (count : s.journal.count = UInt64.ofNat n)
    (seq : s.nextSeq = UInt64.ofNat m) (small : n + orders.length < 2 ^ 64)
    (room : n + orders.length ≤ s.journal.capacity) :
    ∃ s', s.publishAll pg orders = .ok s' ∧ s'.journal.count = UInt64.ofNat (n + orders.length) ∧
      s'.ingress = s.ingress ++ stampFrom m orders ∧
      Extended s.journal.file s'.journal.file n (stampFrom m orders) := by
  induction orders generalizing n m s with
  | nil => exact ⟨s, rfl, count, (List.append_nil _).symm, Extended.refl _ _⟩
  | cons o rest ih =>
    rw [List.length_cons] at small room
    rcases publish_extends pg count seq (by omega) (by omega) o with
      ⟨s₁, flush, published, count₁, seq₁, capacity, ingress, extended⟩
    rcases ih count₁ seq₁ (by omega) (by omega) with ⟨s', later, count', ingress', extended'⟩
    refine ⟨s', ?_, ?_, ?_, extended.cons extended'⟩
    · rw [publishAll, published]
      exact later
    · rw [count', List.length_cons, Nat.add_right_comm, Nat.add_assoc]
    · rw [ingress', ingress, List.append_assoc]
      rfl

theorem submitted_eq (wal : Journaler) {d : Nat} (within : d ≤ wal.count.toNat)
    (passed : ∀ k < d, (record wal.file k).seq = (record wal.file 0).seq + UInt64.ofNat k)
    (stopped : d < wal.count.toNat → (record wal.file d).seq ≠ (record wal.file 0).seq + UInt64.ofNat d) :
    submitted wal = ((List.range d).map (record wal.file), d) := by
  rcases submitted_spec wal with ⟨d', within', result, passed', stopped'⟩
  have same : d' = d := by
    rcases Nat.lt_trichotomy d' d with less | equal | more
    · exact absurd (passed d' less) (stopped' (by omega))
    · exact equal
    · exact absurd (passed' d more) (stopped (by omega))
  rw [result, same]

/-- The log that `s` leaves, opened again, replays as the log it started from and then what
    `s` was given to publish. -/
def Continues (path : String) (bytes : Nat) (wal : Journaler) (s : Sequencer) : Prop :=
  ∃ wal', ofFile path bytes s.journal.file = .ok wal' ∧
    submitted wal' = ((submitted wal).1 ++ s.ingress, (submitted wal).2 + s.ingress.length)

def Contiguous (wal : Journaler) : Prop :=
  ∀ i < wal.count.toNat, (record wal.file i).seq = (record wal.file 0).seq + UInt64.ofNat i

theorem ofFile_again {path : String} {bytes : Nat} {file file' : Nat → UInt64} {wal : Journaler}
    (accepted : ofFile path bytes file = .ok wal) (header : ∀ word < COUNT_WORD, file' word = file word) :
    ∃ wal', ofFile path bytes file' = .ok wal' ∧ wal'.file = file' := by
  have magic : file' MAGIC_WORD = file MAGIC_WORD := header MAGIC_WORD (by decide)
  have format : file' FORMAT_WORD = file FORMAT_WORD := header FORMAT_WORD (by decide)
  have checked : validate file' = validate file := by
    rw [validate, validate, magic, format]
  simp only [ofFile, checked] at accepted ⊢
  split at accepted
  · cases accepted
  · rename_i large
    rw [if_neg large]
    cases verdict : validate file with
    | error message =>
      rw [verdict] at accepted
      cases accepted
    | ok _ => exact ⟨_, rfl, rfl⟩

section Restart

variable {wal wal' : Journaler} {orders : List Order}

theorem submitted_extended (count : wal'.count.toNat = wal.count.toNat + orders.length)
    (extended : Extended wal.file wal'.file wal.count.toNat (stampFrom 0 orders)) (contiguous : Contiguous wal)
    (follows : wal.count = 0 ∨ (record wal.file 0).seq + wal.count = 0) :
    submitted wal' = ((submitted wal).1 ++ stampFrom 0 orders, (submitted wal).2 + orders.length) := by
  have before := submitted_eq wal (Nat.le_refl _) contiguous (fun less => absurd less (Nat.lt_irrefl _))
  have lookup : ∀ i < orders.length, (record wal'.file (wal.count.toNat + i)).seq = UInt64.ofNat i := by
    intro i low
    have held : (stampFrom 0 orders)[i]? = some ((stampFrom 0 orders).get ⟨i, by rw [stampFrom_length]; exact low⟩) :=
      List.getElem?_eq_getElem _
    rw [extended.later i _ held, stampFrom_seq held, Nat.zero_add]
  have passed : ∀ k < wal.count.toNat + orders.length,
      (record wal'.file k).seq = (record wal'.file 0).seq + UInt64.ofNat k := by
    intro k low
    by_cases old : k < wal.count.toNat
    · rw [extended.earlier k old, extended.earlier 0 (by omega)]
      exact contiguous k old
    · rcases Nat.le.dest (Nat.le_of_not_lt old) with ⟨i, rfl⟩
      rw [lookup i (by omega), UInt64.ofNat_add, UInt64.ofNat_toNat]
      rcases follows with empty | wraps
      · have first := lookup 0 (by omega)
        rw [empty] at first ⊢
        rw [show (0 : UInt64).toNat + 0 = 0 from rfl] at first
        rw [first, UInt64.zero_add]
        exact (UInt64.zero_add _).symm
      · by_cases empty : wal.count.toNat = 0
        · have first := lookup 0 (by omega)
          rw [empty, Nat.add_zero] at first
          have zero : wal.count = 0 := UInt64.toNat_inj.mp empty
          rw [first, zero, UInt64.zero_add]
          exact (UInt64.zero_add _).symm
        · rw [extended.earlier 0 (by omega), ← UInt64.add_assoc, wraps, UInt64.zero_add]
  have after := submitted_eq wal' (Nat.le_of_eq count.symm) passed (fun less => by omega)
  have listed := extended.records
  rw [stampFrom_length] at listed
  rw [after, before, listed]

/-- New records are only ever reached past old ones that are in order and lead up to zero. -/
theorem contiguous_of_submitted (extended : Extended wal.file wal'.file wal.count.toNat (stampFrom 0 orders))
    (some : orders ≠ []) (old : wal.count ≠ 0) (total : (submitted wal').2 = (submitted wal).2 + orders.length) :
    Contiguous wal ∧ (record wal.file 0).seq + wal.count = 0 := by
  have positive : 0 < wal.count.toNat := by
    apply Nat.pos_of_ne_zero
    intro zero
    exact old (UInt64.toNat_inj.mp zero)
  have more : 0 < orders.length := List.length_pos_iff.mpr some
  rcases submitted_spec wal with ⟨d, within, result, passed, stopped⟩
  rcases submitted_spec wal' with ⟨d', within', result', passed', stopped'⟩
  rw [result, result'] at total
  dsimp only at total
  subst total
  have all : d = wal.count.toNat := by
    by_contra short
    have low : d < wal.count.toNat := by omega
    apply stopped low
    have seq := passed' d (by omega)
    rwa [extended.earlier d low, extended.earlier 0 positive] at seq
  subst all
  refine ⟨passed, ?_⟩
  have held : (stampFrom 0 orders)[0]? = Option.some ((stampFrom 0 orders).get ⟨0, by rw [stampFrom_length]; exact more⟩) :=
    List.getElem?_eq_getElem _
  have first := passed' (wal.count.toNat + 0) (by omega)
  rw [extended.later 0 _ held, stampFrom_seq held, extended.earlier 0 positive, Nat.zero_add, Nat.add_zero,
    UInt64.ofNat_toNat] at first
  exact first.symm

/-- A log goes on after a restart exactly when nothing is published, or there is nothing in
    it, or its numbers happen to lead up to zero. -/
theorem restart_continues_iff {path : String} (bytes : UInt64) {file : Nat → UInt64}
    (accepted : ofFile path bytes.toNat file = .ok wal) (flushInterval syncEvery pg : Nat)
    (room : wal.count.toNat + orders.length ≤ wal.capacity) :
    ∃ s, (Sequencer.create wal flushInterval syncEvery).publishAll pg orders = .ok s ∧ s.ingress = stampFrom 0 orders ∧
      (Continues path bytes.toNat wal s ↔
        orders = [] ∨ wal.count = 0 ∨ (Contiguous wal ∧ (record wal.file 0).seq + wal.count = 0)) := by
  rcases ofFile_eq accepted with ⟨-, rfl, mapped, capacity⟩
  have range := bytes.toNat_lt
  have small : wal.count.toNat + orders.length < 2 ^ 64 := by
    rw [capacity] at room
    simp only [HEADER_BYTES, ORDER_BYTES] at room
    omega
  rcases publishAll_extends pg orders (s := Sequencer.create wal flushInterval syncEvery) (n := wal.count.toNat) (m := 0)
    (UInt64.ofNat_toNat).symm rfl small room with ⟨s, published, count, ingress, extended⟩
  replace ingress : s.ingress = stampFrom 0 orders := ingress
  replace extended : Extended wal.file s.journal.file wal.count.toNat (stampFrom 0 orders) := extended
  rcases ofFile_again accepted extended.header with ⟨wal', reopened, same⟩
  have total : wal'.count.toNat = wal.count.toNat + orders.length := by
    rw [Journaler.count, same, ← Journaler.count, count, UInt64.toNat_ofNat', Nat.mod_eq_of_lt small]
  rw [← same] at extended
  refine ⟨s, published, ingress, ?_, ?_⟩
  · intro continues
    rcases continues with ⟨wal₁, again, outcome⟩
    rw [reopened] at again
    cases again
    by_cases none : orders = []
    · exact .inl none
    by_cases empty : wal.count = 0
    · exact .inr (.inl empty)
    refine .inr (.inr (contiguous_of_submitted extended none empty ?_))
    rw [outcome, ingress, stampFrom_length]
  · intro cases
    refine ⟨wal', reopened, ?_⟩
    rw [ingress, stampFrom_length]
    rcases cases with none | empty | ⟨contiguous, wraps⟩
    · subst none
      rcases submitted_spec wal with ⟨d, within, result, passed, stopped⟩
      have after := submitted_eq wal' (d := d) (by rw [total]; exact within) ?_ ?_
      · rw [after, result]
        simp only [stampFrom, List.append_nil, List.length_nil, Nat.add_zero, Prod.mk.injEq, and_true]
        apply List.map_congr_left
        intro i member
        exact extended.earlier i (Nat.lt_of_lt_of_le (List.mem_range.mp member) within)
      · intro k low
        rw [extended.earlier k (by omega), extended.earlier 0 (by omega)]
        exact passed k low
      · intro less
        rw [total] at less
        rw [extended.earlier d less, extended.earlier 0 (Nat.lt_of_le_of_lt (Nat.zero_le d) less)]
        exact stopped less
    · refine submitted_extended total extended ?_ (.inl empty)
      intro i low
      rw [empty] at low
      exact absurd low (Nat.not_lt_zero i)
    · exact submitted_extended total extended contiguous (.inr wraps)

/-- A log whose two records have the last two sequence numbers of all, so that the new ones go on at 0. -/
def lastTwo : Journaler :=
  (appendAll [{ (default : Order) with seq := 0xFFFFFFFFFFFFFFFE }, { (default : Order) with seq := 0xFFFFFFFFFFFFFFFF }] (Journaler.create 4)).1

theorem restart_continues_iff_wraps : ∃ wal s, ofFile "titan.wal" 224 lastTwo.file = .ok wal ∧ wal.count = 2 ∧
    (Sequencer.create wal 1 1).publishAll 4096 [default, default] = .ok s ∧ Continues "titan.wal" 224 wal s := by
  rcases (⟨_, rfl⟩ : ∃ wal, ofFile "titan.wal" 224 lastTwo.file = .ok wal) with ⟨wal, accepted⟩
  rcases ofFile_eq accepted with ⟨-, file, -, capacity⟩
  have two : wal.count = 2 := by
    rw [Journaler.count, file]
    decide +kernel
  have room : wal.count.toNat + [(default : Order), default].length ≤ wal.capacity := by
    rw [two, capacity]
    decide
  have contiguous : Contiguous wal := by
    rw [Contiguous, two, file]
    decide +kernel
  have wraps : (record wal.file 0).seq + wal.count = 0 := by
    rw [two, file]
    decide +kernel
  rcases restart_continues_iff 224 accepted 1 1 4096 room with ⟨s, published, -, continues⟩
  exact ⟨wal, s, accepted, two, published, continues.mpr (.inr (.inr ⟨contiguous, wraps⟩))⟩

/-- A log of one record, reopened and given one more, which replay does not reach. -/
theorem restart_loses_order : ∃ s wal s',
    (Sequencer.create (Journaler.create 4) 1 1).publishAll 4096 [default] = .ok s ∧
      ofFile "titan.wal" 224 s.journal.file = .ok wal ∧ submitted wal = (stampFrom 0 [default], 1) ∧
      (Sequencer.create wal 1 1).publishAll 4096 [default] = .ok s' ∧ ¬Continues "titan.wal" 224 wal s' := by
  refine ⟨_, _, _, rfl, rfl, rfl, rfl, ?_⟩
  intro continues
  rcases continues with ⟨wal', reopened, outcome⟩
  cases reopened
  have total := congrArg Prod.snd outcome
  exact absurd total (by decide)

end Restart

end Sequencer

end Titan
