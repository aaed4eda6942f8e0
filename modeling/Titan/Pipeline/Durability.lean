import Titan.Pipeline.Recovery

namespace Titan

open Journaler

def Msync.Covers (pg : Nat) (call : Msync) (page : Nat) : Prop :=
  call.start < (page + 1) * pg ∧ page * pg < call.start + call.length

namespace Journaler

/-- Every byte of record `i` lies on a page that an `MS_SYNC` covered after the record was appended. -/
def Durable (pg : Nat) (j : Journaler) (i : Nat) : Prop :=
  ∀ byte, HEADER_BYTES + i * ORDER_BYTES ≤ byte → byte < HEADER_BYTES + (i + 1) * ORDER_BYTES →
    ∃ call ∈ j.calls, call.flags = .sync ∧ i < call.count ∧ call.Covers pg (byte / pg)

def HeaderDurable (pg : Nat) (j : Journaler) : Prop :=
  ∃ call ∈ j.calls, call.flags = .sync ∧ call.count = j.count.toNat ∧ ∀ byte < HEADER_BYTES, call.Covers pg (byte / pg)

end Journaler

namespace Sequencer

def publishEach (pg : Nat) (s : Sequencer) : List Order → Except String (List (Sequencer × Flush))
  | [] => .ok []
  | o :: rest => do
    let (s, flush) ← s.publish pg o
    let later ← s.publishEach pg rest
    return (s, flush) :: later

/-- After each `flush_sync` all records are durable, and between publishes at most
    `window` of them are not. -/
def LossBounded (pg window : Nat) (trace : List (Sequencer × Flush)) : Prop :=
  ∀ entry ∈ trace,
    (entry.2 = .sync → (∀ i < entry.1.journal.count.toNat, Durable pg entry.1.journal i) ∧
      HeaderDurable pg entry.1.journal) ∧
    ∃ lost : List Nat, lost.length ≤ window ∧
      ∀ i < entry.1.journal.count.toNat, ¬Durable pg entry.1.journal i → i ∈ lost

def dirtyCall (pg mapBytes interval f : Nat) (flags : MsyncFlags) : Msync :=
  let start := HEADER_BYTES + (f - 1) * interval * ORDER_BYTES
  let stop := (HEADER_BYTES + f * interval * ORDER_BYTES + pg - 1) / pg * pg
  let stop := if stop > mapBytes then mapBytes else stop
  { start := start - start % pg, length := stop - (start - start % pg), flags := flags, count := f * interval }

def flushCalls (pg mapBytes interval every f : Nat) : List Msync :=
  if f % every = 0 then
    [dirtyCall pg mapBytes interval f .sync, { start := 0, length := pg, flags := .sync, count := f * interval }]
  else [dirtyCall pg mapBytes interval f .async]

structure Cadenced (pg capacity interval every : Nat) (s : Sequencer) (n : Nat) : Prop where
  count : s.journal.count = UInt64.ofNat n
  seq : s.nextSeq = UInt64.ofNat n
  limit : s.journal.capacity = capacity
  bytes : s.journal.mapBytes = HEADER_BYTES + capacity * ORDER_BYTES
  flushing : s.flushInterval = interval
  syncing : s.syncEvery = every
  since : s.sinceFlush = n % interval
  flushes : s.flushNo = n / interval
  synced : s.journal.syncedCount = n / interval * interval
  calls : s.journal.calls =
    (List.range (n / interval)).flatMap fun f =>
      flushCalls pg (HEADER_BYTES + capacity * ORDER_BYTES) interval every (f + 1)

theorem le_align_up {x pg : Nat} (positive : 0 < pg) : x ≤ (x + pg - 1) / pg * pg := by
  have split := Nat.div_add_mod' (x + pg - 1) pg
  have low := Nat.mod_lt (x + pg - 1) positive
  omega

theorem align_down_le (x pg : Nat) : x - x % pg ≤ x := Nat.sub_le x _

theorem syncDirty_spec {j : Journaler} {pg interval f : Nat} (positive : 0 < pg) (some : 0 < interval) (first : 0 < f)
    (flags : MsyncFlags) (count : j.count.toNat = f * interval) (synced : j.syncedCount = (f - 1) * interval)
    (fits : HEADER_BYTES + f * interval * ORDER_BYTES ≤ j.mapBytes) :
    (j.syncDirty pg flags).calls = j.calls ++ dirtyCall pg j.mapBytes interval f flags ::
        (if flags = .sync then [{ start := 0, length := pg, flags := .sync, count := f * interval }] else []) ∧
      (j.syncDirty pg flags).syncedCount = f * interval := by
  have split : f * interval = (f - 1) * interval + interval := by
    rcases Nat.exists_eq_succ_of_ne_zero (Nat.ne_of_gt first) with ⟨k, rfl⟩
    rw [Nat.succ_sub_one, Nat.succ_mul]
  have up := le_align_up (x := HEADER_BYTES + f * interval * ORDER_BYTES) positive
  have down := align_down_le (HEADER_BYTES + (f - 1) * interval * ORDER_BYTES) pg
  have fresh : ¬(f * interval = (f - 1) * interval ∧ flags = .async) := by
    intro same
    omega
  have wide : HEADER_BYTES + (f - 1) * interval * ORDER_BYTES < HEADER_BYTES + f * interval * ORDER_BYTES := by
    simp only [HEADER_BYTES, ORDER_BYTES]
    omega
  have ahead : (if (HEADER_BYTES + f * interval * ORDER_BYTES + pg - 1) / pg * pg > j.mapBytes then j.mapBytes
      else (HEADER_BYTES + f * interval * ORDER_BYTES + pg - 1) / pg * pg) >
      HEADER_BYTES + (f - 1) * interval * ORDER_BYTES - (HEADER_BYTES + (f - 1) * interval * ORDER_BYTES) % pg := by
    split <;> omega
  simp only [syncDirty, count, synced, if_neg fresh, if_pos ahead, msync, dirtyCall]
  cases flags <;> simp [Journaler.count, ← count]

theorem succ_div_mod_of_full {n interval : Nat} (some : 0 < interval) (full : n % interval + 1 ≥ interval) :
    (n + 1) % interval = 0 ∧ (n + 1) / interval = n / interval + 1 := by
  have split := Nat.div_add_mod n interval
  have low := Nat.mod_lt n some
  have whole : n + 1 = interval * (n / interval + 1) := by
    rw [Nat.mul_add, Nat.mul_one]
    omega
  constructor
  · rw [whole, Nat.mul_mod_right]
  · rw [whole, Nat.mul_div_cancel_left _ some]

theorem succ_div_mod_of_room {n interval : Nat} (some : 0 < interval) (room : ¬n % interval + 1 ≥ interval) :
    (n + 1) % interval = n % interval + 1 ∧ (n + 1) / interval = n / interval := by
  have split := Nat.div_add_mod n interval
  have unique := (Nat.div_mod_unique some (a := n + 1) (c := n % interval + 1) (d := n / interval)).mpr
    ⟨by omega, by omega⟩
  exact ⟨unique.2, unique.1⟩

section Cadence

variable {pg capacity interval every n : Nat} {s : Sequencer}

theorem create_cadenced (pg interval every : Nat) (fits : HEADER_BYTES + capacity * ORDER_BYTES < 2 ^ 64)
    (some : 0 < interval) :
    Cadenced pg capacity interval every (Sequencer.create (Journaler.create capacity) interval every) 0 := by
  refine ⟨rfl, rfl, rfl, Nat.mod_eq_of_lt fits, ?_, rfl, ?_, ?_, ?_, ?_⟩
  · simp [Sequencer.create, Nat.ne_of_gt some]
  · rw [Nat.zero_mod]
    rfl
  · rw [Nat.zero_div]
    rfl
  · rw [Nat.zero_div, Nat.zero_mul]
    rfl
  · rw [Nat.zero_div]
    rfl

theorem Cadenced.publish (cadenced : Cadenced pg capacity interval every s n) (positive : 0 < pg) (some : 0 < interval)
    (syncs : 0 < every) (room : n < capacity) (fits : HEADER_BYTES + capacity * ORDER_BYTES < 2 ^ 64) (o : Order) :
    ∃ s' flush, s.publish pg o = .ok (s', flush) ∧ Cadenced pg capacity interval every s' (n + 1) ∧
      (flush = .sync ↔ (n + 1) % interval = 0 ∧ (n + 1) / interval % every = 0) := by
  have small : n + 1 < 2 ^ 64 := by
    simp only [HEADER_BYTES, ORDER_BYTES] at fits
    omega
  rcases append_spec cadenced.count small (by rw [cadenced.limit]; exact room) { o with seq := UInt64.ofNat n } with
    ⟨j, appended, _, counted, limit, bytes, synced, calls⟩
  have bumped : UInt64.ofNat n + 1 = UInt64.ofNat (n + 1) := by
    rw [UInt64.ofNat_add]
    rfl
  have value : j.count.toNat = n + 1 := by
    rw [counted, UInt64.toNat_ofNat', Nat.mod_eq_of_lt small]
  let u : Sequencer := { s with
    journal := j
    nextSeq := UInt64.ofNat n + 1
    ingress := s.ingress ++ [{ o with seq := UInt64.ofNat n }] }
  have call : s.publish pg o = .ok (u.cadence pg) := by
    simp only [Sequencer.publish, journalOrder, cadenced.seq, appended]
    rfl
  refine ⟨(u.cadence pg).1, (u.cadence pg).2, call, ?_⟩
  by_cases full : n % interval + 1 ≥ interval
  · rcases succ_div_mod_of_full some full with ⟨zero, next⟩
    have multiple : (n / interval + 1) * interval = n + 1 := by
      rw [← next]
      have split := Nat.div_add_mod' (n + 1) interval
      omega
    have held : HEADER_BYTES + (n / interval + 1) * interval * ORDER_BYTES ≤ j.mapBytes := by
      rw [bytes, cadenced.bytes, multiple]
      exact Nat.add_le_add_left (Nat.mul_le_mul_right _ room) _
    have flushed : ∀ flags, (flags = .sync ↔ (n / interval + 1) % every = 0) →
        Cadenced pg capacity interval every
          { u with sinceFlush := 0, flushNo := s.flushNo + 1, journal := j.syncDirty pg flags } (n + 1) := by
      intro flags kind
      rcases syncDirty_spec positive some (Nat.succ_pos (n / interval)) flags (value.trans multiple.symm)
        (synced.trans cadenced.synced) held with ⟨made, reached⟩
      rcases j.syncDirty_frame pg flags with ⟨file, _, limit', bytes'⟩
      refine ⟨(congrFun file COUNT_WORD).trans counted, bumped, limit'.trans (limit.trans cadenced.limit),
        bytes'.trans (bytes.trans cadenced.bytes), cadenced.flushing, cadenced.syncing, zero.symm, ?_, ?_, ?_⟩
      · rw [next, ← cadenced.flushes]
      · rw [next]
        exact reached
      · show (j.syncDirty pg flags).calls = _
        rw [made, calls, cadenced.calls, bytes, cadenced.bytes, next, List.range_succ, List.flatMap_append]
        congr 1
        cases flags with
        | sync => simp [flushCalls, kind.mp rfl]
        | async => simp [flushCalls, show (n / interval + 1) % every ≠ 0 from fun zero => by simpa using kind.mpr zero]
    have active : every ≠ 0 := Nat.ne_of_gt syncs
    rw [zero, next]
    by_cases checkpoint : (n / interval + 1) % every = 0
    · have fired : u.cadence pg =
          ({ u with sinceFlush := 0, flushNo := s.flushNo + 1, journal := j.syncDirty pg .sync }, .sync) := by
        simp [cadence, u, cadenced.since, cadenced.flushing, cadenced.syncing, cadenced.flushes, full, active, checkpoint,
          flushSync]
      rw [fired]
      exact ⟨flushed .sync (by simp [checkpoint]), by simp [checkpoint]⟩
    · have fired : u.cadence pg =
          ({ u with sinceFlush := 0, flushNo := s.flushNo + 1, journal := j.syncDirty pg .async }, .async) := by
        simp [cadence, u, cadenced.since, cadenced.flushing, cadenced.syncing, cadenced.flushes, full, active, checkpoint,
          flushAsync]
      rw [fired]
      exact ⟨flushed .async (by simp [checkpoint]), by simp [checkpoint]⟩
  · rcases succ_div_mod_of_room some full with ⟨more, same⟩
    have idle : u.cadence pg = ({ u with sinceFlush := s.sinceFlush + 1 }, .none) := by
      simp only [cadence, u, cadenced.since, cadenced.flushing, if_neg full]
    rw [idle]
    refine ⟨⟨counted, bumped, limit.trans cadenced.limit, bytes.trans cadenced.bytes, cadenced.flushing, cadenced.syncing,
      ?_, ?_, ?_, ?_⟩, ?_⟩
    · rw [more, ← cadenced.since]
    · rw [same]
      exact cadenced.flushes
    · rw [same]
      exact synced.trans cadenced.synced
    · rw [same]
      exact calls.trans cadenced.calls
    · rw [more]
      simp

theorem Cadenced.publishEach (cadenced : Cadenced pg capacity interval every s n) (positive : 0 < pg)
    (some : 0 < interval) (syncs : 0 < every) (fits : HEADER_BYTES + capacity * ORDER_BYTES < 2 ^ 64)
    (orders : List Order) (room : n + orders.length ≤ capacity) :
    ∃ trace, s.publishEach pg orders = .ok trace ∧
      (∀ entry ∈ trace, ∃ k, n < k ∧ k ≤ n + orders.length ∧ Cadenced pg capacity interval every entry.1 k ∧
        (entry.2 = .sync ↔ k % interval = 0 ∧ k / interval % every = 0)) ∧
      ∀ k, n < k → k ≤ n + orders.length → ∃ entry ∈ trace, Cadenced pg capacity interval every entry.1 k ∧
        (entry.2 = .sync ↔ k % interval = 0 ∧ k / interval % every = 0) := by
  induction orders generalizing s n with
  | nil => exact ⟨[], rfl, by simp, fun k low high => absurd high (by simpa using low)⟩
  | cons o rest ih =>
    simp only [List.length_cons] at room ⊢
    rcases cadenced.publish positive some syncs (by omega) fits o with ⟨s', flush, once, next, kind⟩
    rcases ih next (by omega) with ⟨later, rest', sound, complete⟩
    refine ⟨(s', flush) :: later, ?_, ?_, ?_⟩
    · rw [Sequencer.publishEach, once]
      simp only [bind, Except.bind, rest']
      rfl
    · intro entry member
      rcases List.mem_cons.mp member with here | after
      · rw [here]
        exact ⟨n + 1, by omega, by omega, next, kind⟩
      · rcases sound entry after with ⟨k, low, high, facts⟩
        exact ⟨k, by omega, by omega, facts⟩
    · intro k low high
      by_cases here : k = n + 1
      · rw [here]
        exact ⟨_, List.mem_cons_self, next, kind⟩
      · rcases complete k (by omega) (by omega) with ⟨entry, member, facts⟩
        exact ⟨entry, List.mem_cons_of_mem _ member, facts⟩

theorem align_down_eq (x pg : Nat) : x - x % pg = x / pg * pg := by
  have split := Nat.div_add_mod' x pg
  omega

/-- The range of a flush reaches every page from the one it starts on to its last byte. -/
theorem dirtyCall_covers {mapBytes f byte : Nat} (flags : MsyncFlags) (positive : 0 < pg)
    (fits : HEADER_BYTES + f * interval * ORDER_BYTES ≤ mapBytes)
    (low : (HEADER_BYTES + (f - 1) * interval * ORDER_BYTES) / pg ≤ byte / pg)
    (high : byte < HEADER_BYTES + f * interval * ORDER_BYTES) :
    (dirtyCall pg mapBytes interval f flags).Covers pg (byte / pg) := by
  have up := le_align_up (x := HEADER_BYTES + f * interval * ORDER_BYTES) positive
  have page := Nat.div_mul_le_self byte pg
  have below := Nat.mul_le_mul_right pg low
  simp only [Msync.Covers, dirtyCall, align_down_eq, Nat.add_mul, Nat.one_mul]
  constructor
  · omega
  · split <;> omega

theorem start_le_of_covers {mapBytes f page : Nat} {flags : MsyncFlags}
    (covers : (dirtyCall pg mapBytes interval f flags).Covers pg page) :
    (HEADER_BYTES + (f - 1) * interval * ORDER_BYTES) / pg ≤ page := by
  have before := covers.1
  simp only [dirtyCall, align_down_eq] at before
  exact Nat.le_of_lt_succ (Nat.lt_of_mul_lt_mul_right before)

theorem header_covers_iff {count page : Nat} (positive : 0 < pg) :
    (⟨0, pg, .sync, count⟩ : Msync).Covers pg page ↔ page = 0 := by
  simp only [Msync.Covers, Nat.zero_add]
  constructor
  · intro covers
    by_contra later
    have one := Nat.mul_le_mul_right pg (Nat.one_le_iff_ne_zero.mpr later)
    omega
  · intro first
    rw [first]
    omega

theorem Cadenced.mem_sync {call : Msync} (cadenced : Cadenced pg capacity interval every s n) :
    call ∈ s.journal.calls ∧ call.flags = .sync ↔
      ∃ f, 0 < f ∧ f ≤ n / interval ∧ f % every = 0 ∧
        (call = dirtyCall pg (HEADER_BYTES + capacity * ORDER_BYTES) interval f .sync ∨
          call = ⟨0, pg, .sync, f * interval⟩) := by
  rw [cadenced.calls]
  simp only [List.mem_flatMap, List.mem_range, flushCalls]
  constructor
  · intro made
    rcases made with ⟨⟨f, low, member⟩, flags⟩
    split at member
    · rename_i checkpoint
      exact ⟨f + 1, Nat.succ_pos f, low, checkpoint, by simpa using member⟩
    · rw [List.mem_singleton] at member
      rw [member] at flags
      cases flags
  · intro made
    rcases made with ⟨f, positive, low, checkpoint, kind⟩
    refine ⟨⟨f - 1, by omega, ?_⟩, ?_⟩
    · rw [Nat.sub_add_cancel positive, if_pos checkpoint]
      simpa using kind
    · rcases kind with rfl | rfl <;> rfl

/-- Either the last flush of cycle `m` starts on the page where the cycle began, or on one
    of the first two pages, which the header checkpoint completes. -/
def CycleCovered (pg interval every m : Nat) : Prop :=
  (HEADER_BYTES + (m * every - 1) * interval * ORDER_BYTES) / pg ≤ 1 ∨
    (HEADER_BYTES + (m * every - 1) * interval * ORDER_BYTES) / pg =
      (HEADER_BYTES + (m - 1) * (every * interval) * ORDER_BYTES) / pg

theorem Cadenced.durable_of_cycle {m i : Nat} (cadenced : Cadenced pg capacity interval every s n) (positive : 0 < pg)
    (syncs : 0 < every) (within : n ≤ capacity) (first : 0 < m) (reached : m * every ≤ n / interval)
    (covered : CycleCovered pg interval every m) (low : (m - 1) * (every * interval) ≤ i)
    (high : i < m * every * interval) : Durable pg s.journal i := by
  have flushes : 0 < m * every := Nat.mul_pos first syncs
  have appended : m * every * interval ≤ n :=
    Nat.le_trans (Nat.mul_le_mul_right interval reached) (Nat.div_mul_le_self n interval)
  have fits : HEADER_BYTES + m * every * interval * ORDER_BYTES ≤ HEADER_BYTES + capacity * ORDER_BYTES :=
    Nat.add_le_add_left (Nat.mul_le_mul_right _ (Nat.le_trans appended within)) _
  have dirty := cadenced.mem_sync.mpr ⟨m * every, flushes, reached, Nat.mul_mod_left m every, .inl rfl⟩
  have header := cadenced.mem_sync.mpr ⟨m * every, flushes, reached, Nat.mul_mod_left m every, .inr rfl⟩
  intro byte above below
  have last : byte < HEADER_BYTES + m * every * interval * ORDER_BYTES :=
    Nat.lt_of_lt_of_le below (Nat.add_le_add_left (Nat.mul_le_mul_right _ high) _)
  by_cases after : (HEADER_BYTES + (m * every - 1) * interval * ORDER_BYTES) / pg ≤ byte / pg
  · exact ⟨_, dirty.1, dirty.2, high, dirtyCall_covers .sync positive fits after last⟩
  · have begun : (HEADER_BYTES + (m - 1) * (every * interval) * ORDER_BYTES) / pg ≤ byte / pg :=
      Nat.div_le_div_right (Nat.le_trans (Nat.add_le_add_left (Nat.mul_le_mul_right _ low) _) above)
    have page : byte / pg = 0 := by
      rcases covered with early | same
      · exact Nat.lt_one_iff.mp (Nat.lt_of_lt_of_le (Nat.not_le.mp after) early)
      · exact absurd (same ▸ begun) after
    exact ⟨_, header.1, header.2, high, (header_covers_iff positive).mpr page⟩

theorem cycle_bounds (i : Nat) (some : 0 < interval) (syncs : 0 < every) :
    (i / (every * interval) + 1 - 1) * (every * interval) ≤ i ∧ i < (i / (every * interval) + 1) * every * interval := by
  constructor
  · exact Nat.div_mul_le_self i _
  · rw [Nat.mul_assoc]
    exact Nat.lt_mul_of_div_lt (Nat.lt_succ_self _) (Nat.mul_pos syncs some)

theorem Cadenced.durable {i : Nat} (cadenced : Cadenced pg capacity interval every s n) (positive : 0 < pg)
    (some : 0 < interval) (syncs : 0 < every) (within : n ≤ capacity)
    (covered : ∀ m, 0 < m → m * (every * interval) ≤ n → CycleCovered pg interval every m)
    (old : i < n / (every * interval) * (every * interval)) : Durable pg s.journal i := by
  have cycles := Nat.mul_pos syncs some
  rcases cycle_bounds i some syncs with ⟨low, high⟩
  have done : (i / (every * interval) + 1) * (every * interval) ≤ n := by
    have less := Nat.div_lt_of_lt_mul (Nat.mul_comm _ (every * interval) ▸ old)
    exact Nat.le_trans (Nat.mul_le_mul_right _ less) (Nat.div_mul_le_self n _)
  refine cadenced.durable_of_cycle positive syncs within (Nat.succ_pos _) ?_ (covered _ (Nat.succ_pos _) done) low high
  rw [Nat.le_div_iff_mul_le some, Nat.mul_assoc]
  exact done

theorem checkpoint_iff {k : Nat} (some : 0 < interval) :
    k % interval = 0 ∧ k / interval % every = 0 ↔ k % (every * interval) = 0 := by
  rw [Nat.mul_comm every interval, Nat.mod_mul]
  constructor
  · intro both
    rw [both.1, both.2, Nat.mul_zero]
  · intro zero
    have parts := Nat.add_eq_zero_iff.mp zero
    exact ⟨parts.1, (Nat.mul_eq_zero.mp parts.2).resolve_left (Nat.ne_of_gt some)⟩

theorem Cadenced.count_toNat (cadenced : Cadenced pg capacity interval every s n) (small : n < 2 ^ 64) :
    s.journal.count.toNat = n := by
  rw [cadenced.count, UInt64.toNat_ofNat', Nat.mod_eq_of_lt small]

theorem Cadenced.headerDurable (cadenced : Cadenced pg capacity interval every s n) (page : HEADER_BYTES ≤ pg)
    (small : n < 2 ^ 64) (some : 0 < interval) (started : 0 < n) (whole : n % interval = 0)
    (checkpoint : n / interval % every = 0) : HeaderDurable pg s.journal := by
  have positive : 0 < pg := Nat.lt_of_lt_of_le (by decide) page
  have multiple : n / interval * interval = n := Nat.div_mul_cancel (Nat.dvd_of_mod_eq_zero whole)
  have flushes : 0 < n / interval := Nat.div_pos (Nat.le_of_dvd started (Nat.dvd_of_mod_eq_zero whole)) some
  have header := cadenced.mem_sync.mpr ⟨n / interval, flushes, Nat.le_refl _, checkpoint, .inr rfl⟩
  refine ⟨_, header.1, header.2, ?_, fun byte low => (header_covers_iff positive).mpr ?_⟩
  · rw [cadenced.count_toNat small]
    exact multiple
  · exact Nat.div_eq_of_lt (Nat.lt_of_lt_of_le low page)

theorem Cadenced.header_le_of_durable (cadenced : Cadenced pg capacity interval every s n) (positive : 0 < pg)
    (header : HeaderDurable pg s.journal) : HEADER_BYTES ≤ pg := by
  rcases header with ⟨call, member, flags, -, covers⟩
  rcases cadenced.mem_sync.mp ⟨member, flags⟩ with ⟨f, -, -, -, kind⟩
  by_contra short
  rw [Nat.not_le] at short
  rcases kind with rfl | rfl
  -- the dirty range starts behind the first page
  · have start := start_le_of_covers (covers 0 (by decide))
    rw [Nat.zero_div, Nat.le_zero, Nat.div_eq_zero_iff_lt positive] at start
    omega
  · have second := (header_covers_iff positive).mp (covers pg short)
    rw [Nat.div_self positive] at second
    cases second

theorem checkpoint_unique {m f i : Nat} (syncs : 0 < every) (whole : f % every = 0)
    (bound : f ≤ m * every) (low : (m - 1) * (every * interval) ≤ i) (high : i < f * interval) : f = m * every := by
  rcases Nat.dvd_of_mod_eq_zero whole with ⟨q, rfl⟩
  have after : (m - 1) * (every * interval) < q * (every * interval) := by
    refine Nat.lt_of_le_of_lt low (Nat.lt_of_lt_of_eq high ?_)
    rw [Nat.mul_comm every q, Nat.mul_assoc]
  have later : m - 1 < q := Nat.lt_of_mul_lt_mul_right after
  have limit : q ≤ m := by
    rw [Nat.mul_comm every q] at bound
    exact Nat.le_of_mul_le_mul_right bound syncs
  have same : q = m := by omega
  rw [same, Nat.mul_comm]

theorem Cadenced.cycleCovered_of_durable {m : Nat} (cadenced : Cadenced pg capacity interval every s n)
    (page : HEADER_BYTES ≤ pg) (some : 0 < interval) (syncs : 0 < every) (first : 0 < m)
    (cycles : n = m * (every * interval)) (durable : ∀ i < n, Durable pg s.journal i) :
    CycleCovered pg interval every m := by
  have positive : 0 < pg := Nat.lt_of_lt_of_le (by decide) page
  by_contra missed
  rw [CycleCovered, not_or, Nat.not_le] at missed
  rcases missed with ⟨late, moved⟩
  have flushes : n / interval = m * every := by
    rw [cycles, ← Nat.mul_assoc, Nat.mul_div_cancel _ some]
  have onward : (m - 1) * (every * interval) ≤ (m * every - 1) * interval := by
    rw [← Nat.mul_assoc]
    apply Nat.mul_le_mul_right
    have step : (m - 1) * every + every = m * every := by rw [← Nat.succ_mul, Nat.succ_eq_add_one, Nat.sub_add_cancel first]
    omega
  have inside : (m * every - 1) * interval ≤ n := by
    rw [cycles, ← Nat.mul_assoc]
    exact Nat.mul_le_mul_right _ (Nat.sub_le _ _)
  have begun : (HEADER_BYTES + (m - 1) * (every * interval) * ORDER_BYTES) / pg ≤
      (HEADER_BYTES + (m * every - 1) * interval * ORDER_BYTES) / pg :=
    Nat.div_le_div_right (Nat.add_le_add_left (Nat.mul_le_mul_right _ onward) _)
  -- a byte of the cycle on a page after the header's that its last flush does not reach
  have exists_byte : ∃ byte, HEADER_BYTES + (m - 1) * (every * interval) * ORDER_BYTES ≤ byte ∧ 0 < byte / pg ∧
      byte / pg < (HEADER_BYTES + (m * every - 1) * interval * ORDER_BYTES) / pg := by
    by_cases header : (HEADER_BYTES + (m - 1) * (every * interval) * ORDER_BYTES) / pg = 0
    · refine ⟨pg, Nat.le_of_lt ?_, ?_, ?_⟩
      · exact (Nat.div_eq_zero_iff_lt positive).mp header
      · rw [Nat.div_self positive]
        exact Nat.one_pos
      · rw [Nat.div_self positive]
        exact late
    · exact ⟨_, Nat.le_refl _, Nat.pos_of_ne_zero header, Nat.lt_of_le_of_ne begun (Ne.symm moved)⟩
  rcases exists_byte with ⟨byte, start, after, short⟩
  have above : HEADER_BYTES ≤ byte := Nat.le_trans (Nat.le_add_right _ _) start
  have below : byte < HEADER_BYTES + (m * every - 1) * interval * ORDER_BYTES := Nat.lt_of_div_lt_div short
  generalize onset : (m - 1) * (every * interval) = lower at *
  generalize last : (m * every - 1) * interval = upper at *
  simp only [HEADER_BYTES, ORDER_BYTES] at start above below
  rcases durable ((byte - 64) / 40) (by omega) byte (by simp only [HEADER_BYTES, ORDER_BYTES]; omega)
    (by simp only [HEADER_BYTES, ORDER_BYTES]; omega) with ⟨call, member, flags, count, covers⟩
  rcases cadenced.mem_sync.mp ⟨member, flags⟩ with ⟨f, made, bound, whole, kind⟩
  rw [flushes] at bound
  have counted : call.count = f * interval := by
    rcases kind with rfl | rfl <;> rfl
  rw [counted] at count
  have same := checkpoint_unique syncs whole bound (by rw [onset]; omega) count
  subst same
  rcases kind with rfl | rfl
  · have reach := start_le_of_covers covers
    rw [last] at reach
    exact absurd short (Nat.not_lt.mpr reach)
  · rw [header_covers_iff positive] at covers
    exact absurd after (by rw [covers]; exact Nat.lt_irrefl 0)

end Cadence

theorem publishAll_of_publishEach {pg : Nat} {orders : List Order} {s : Sequencer} {trace : List (Sequencer × Flush)}
    (published : s.publishEach pg orders = .ok trace) : ∃ s', s.publishAll pg orders = .ok s' := by
  induction orders generalizing s trace with
  | nil => exact ⟨s, rfl⟩
  | cons o rest ih =>
    rw [publishEach] at published
    rw [publishAll]
    cases once : s.publish pg o with
    | error message =>
      rw [once] at published
      cases published
    | ok next =>
      rw [once] at published
      simp only [bind, Except.bind] at published ⊢
      cases later : next.1.publishEach pg rest with
      | error message =>
        rw [later] at published
        cases published
      | ok entries => exact ih later

structure Traced (pg capacity interval every : Nat) (trace : List (Sequencer × Flush)) (n : Nat) : Prop where
  within : n ≤ capacity
  sound : ∀ entry ∈ trace, ∃ k, 0 < k ∧ k ≤ n ∧ Cadenced pg capacity interval every entry.1 k ∧
    (entry.2 = .sync ↔ k % interval = 0 ∧ k / interval % every = 0)
  complete : ∀ k, 0 < k → k ≤ n → ∃ entry ∈ trace, Cadenced pg capacity interval every entry.1 k ∧
    (entry.2 = .sync ↔ k % interval = 0 ∧ k / interval % every = 0)

section Loss

variable {pg capacity interval every n : Nat} {orders : List Order} {trace : List (Sequencer × Flush)}

theorem publishEach_create (orders : List Order) (positive : 0 < pg) (some : 0 < interval) (syncs : 0 < every)
    (fits : HEADER_BYTES + capacity * ORDER_BYTES < 2 ^ 64) (within : orders.length ≤ capacity) :
    ∃ trace, (Sequencer.create (Journaler.create capacity) interval every).publishEach pg orders = .ok trace ∧
      Traced pg capacity interval every trace orders.length := by
  have room : 0 + orders.length ≤ capacity := by rwa [Nat.zero_add]
  rcases (create_cadenced pg interval every fits some).publishEach positive some syncs fits orders room with
    ⟨trace, published, sound, complete⟩
  rw [Nat.zero_add] at sound complete
  exact ⟨trace, published, within, sound, complete⟩

theorem Traced.covered_of_lossBounded {m window : Nat} (traced : Traced pg capacity interval every trace n)
    (positive : 0 < pg) (some : 0 < interval) (syncs : 0 < every) (small : capacity < 2 ^ 64)
    (bounded : LossBounded pg window trace) (first : 0 < m) (done : m * (every * interval) ≤ n) :
    HEADER_BYTES ≤ pg ∧ CycleCovered pg interval every m := by
  rcases traced.complete _ (Nat.mul_pos first (Nat.mul_pos syncs some)) done with ⟨entry, member, cadenced, kind⟩
  have fired := kind.mpr ((checkpoint_iff some).mpr (Nat.mul_mod_left m _))
  rcases (bounded entry member).1 fired with ⟨durable, header⟩
  rw [cadenced.count_toNat (Nat.lt_of_le_of_lt (Nat.le_trans done traced.within) small)] at durable
  have page := cadenced.header_le_of_durable positive header
  exact ⟨page, cadenced.cycleCovered_of_durable page some syncs first rfl durable⟩

theorem Traced.lossBounded_of_covered (traced : Traced pg capacity interval every trace n) (positive : 0 < pg)
    (some : 0 < interval) (syncs : 0 < every) (small : capacity < 2 ^ 64)
    (covered : ∀ m, 0 < m → m * (every * interval) ≤ n → HEADER_BYTES ≤ pg ∧ CycleCovered pg interval every m) :
    LossBounded pg (interval * every) trace := by
  have cycles := Nat.mul_pos syncs some
  intro entry member
  rcases traced.sound entry member with ⟨k, low, high, cadenced, kind⟩
  have within := Nat.le_trans high traced.within
  have here : ∀ m, 0 < m → m * (every * interval) ≤ k → CycleCovered pg interval every m :=
    fun m first done => (covered m first (Nat.le_trans done high)).2
  have old : ∀ i < k / (every * interval) * (every * interval), Durable pg entry.1.journal i :=
    fun i low => cadenced.durable positive some syncs within here low
  rw [cadenced.count_toNat (Nat.lt_of_le_of_lt within small)]
  constructor
  · intro fired
    rcases kind.mp fired with ⟨whole, checkpoint⟩
    have multiple := Nat.div_mul_cancel (Nat.dvd_of_mod_eq_zero ((checkpoint_iff some).mp ⟨whole, checkpoint⟩))
    have page := (covered (k / (every * interval)) (Nat.pos_of_mul_pos_right (multiple.symm ▸ low))
      (multiple.symm ▸ high)).1
    rw [multiple] at old
    exact ⟨old, cadenced.headerDurable page (Nat.lt_of_le_of_lt within small) some low whole checkpoint⟩
  -- what is not durable was appended after the last checkpoint
  · refine ⟨List.range' (k / (every * interval) * (every * interval)) (k % (every * interval)), ?_, ?_⟩
    · rw [List.length_range', Nat.mul_comm interval every]
      exact Nat.le_of_lt (Nat.mod_lt k cycles)
    · intro i below lost
      have split := Nat.div_add_mod' k (every * interval)
      have after := Nat.not_lt.mp fun early => lost (old i early)
      rw [List.mem_range'_1]
      omega

/-- The loss is bounded by one cycle of `F * S` records exactly when every completed cycle
    is covered by the flush that ends it. -/
theorem loss_bounded_iff (positive : 0 < pg) (some : 0 < interval) (syncs : 0 < every)
    (fits : HEADER_BYTES + capacity * ORDER_BYTES < 2 ^ 64)
    (published : (Sequencer.create (Journaler.create capacity) interval every).publishEach pg orders = .ok trace) :
    LossBounded pg (interval * every) trace ↔
      ∀ m, 0 < m → m * (every * interval) ≤ orders.length → HEADER_BYTES ≤ pg ∧ CycleCovered pg interval every m := by
  have small : capacity < 2 ^ 64 := by
    simp only [HEADER_BYTES, ORDER_BYTES] at fits
    omega
  rcases publishAll_of_publishEach published with ⟨last, all⟩
  have within := publishAll_fits (n := 0) orders rfl rfl (Nat.zero_le _) small all
  rw [Nat.zero_add] at within
  rcases publishEach_create orders positive some syncs fits within with ⟨trace', again, traced⟩
  rw [published] at again
  cases again
  constructor
  · intro bounded m first done
    exact traced.covered_of_lossBounded positive some syncs small bounded first done
  · exact traced.lossBounded_of_covered positive some syncs small

end Loss

theorem loss_bounded_iff_every_flush : ∃ trace,
    (Sequencer.create (Journaler.create 600) 300 1).publishEach 4096 (List.replicate 600 default) = .ok trace ∧
      LossBounded 4096 300 trace := by
  have fits : HEADER_BYTES + 600 * ORDER_BYTES < 2 ^ 64 := by decide
  have length : (List.replicate 600 (default : Order)).length = 600 := List.length_replicate
  rcases publishEach_create (List.replicate 600 default) (show 0 < 4096 by decide) (show 0 < 300 by decide)
    (show 0 < 1 by decide) fits (Nat.le_of_eq length) with ⟨trace, published, -⟩
  refine ⟨trace, published, (loss_bounded_iff (by decide) (by decide) (by decide) fits published).mpr ?_⟩
  intro m first done
  refine ⟨by decide, .inr ?_⟩
  rw [Nat.mul_one, Nat.one_mul]

/-- The last flush of the first cycle starts at record 300, on page 2, and no `MS_SYNC` reaches page 1. -/
theorem loss_unbounded_over_pages : ∃ trace,
    (Sequencer.create (Journaler.create 600) 300 2).publishEach 4096 (List.replicate 600 default) = .ok trace ∧
      ¬LossBounded 4096 600 trace := by
  have fits : HEADER_BYTES + 600 * ORDER_BYTES < 2 ^ 64 := by decide
  have length : (List.replicate 600 (default : Order)).length = 600 := List.length_replicate
  rcases publishEach_create (List.replicate 600 default) (show 0 < 4096 by decide) (show 0 < 300 by decide)
    (show 0 < 2 by decide) fits (Nat.le_of_eq length) with ⟨trace, published, traced⟩
  refine ⟨trace, published, ?_⟩
  intro bounded
  have covered := traced.covered_of_lossBounded (m := 1) (by decide) (by decide) (by decide) (by decide) bounded (by decide)
    (Nat.le_of_eq length.symm)
  exact absurd covered.2 (by simp [CycleCovered, HEADER_BYTES, ORDER_BYTES])

end Sequencer

end Titan
