import Titan.Pipeline.Recovery

namespace Titan

open Journaler

namespace Sequencer

def replayLoopReads (file : Nat → UInt64) (base : Seq) : Nat → Nat → List Nat
  | 0, _ => []
  | n + 1, i =>
    if (Journaler.record file i).seq ≠ base + UInt64.ofNat i then [i] else i :: replayLoopReads file base n (i + 1)

def replayReads (wal : Journaler) : List Nat :=
  if wal.count = 0 then []
  else 0 :: replayLoopReads wal.file (Journaler.record wal.file 0).seq wal.count.toNat 0

/-- The loop looks at a record once all before it have the expected `seq`. -/
theorem mem_replayLoopReads {file : Nat → UInt64} {base : Seq} {n i k : Nat} :
    k ∈ replayLoopReads file base n i ↔
      i ≤ k ∧ k < i + n ∧ ∀ m, i ≤ m → m < k → (Journaler.record file m).seq = base + UInt64.ofNat m := by
  induction n generalizing i with
  | zero =>
    rw [replayLoopReads]
    constructor
    · intro member
      cases member
    · intro range
      omega
  | succ n ih =>
    rw [replayLoopReads]
    by_cases here : (Journaler.record file i).seq = base + UInt64.ofNat i
    · rw [if_neg (not_not.mpr here), List.mem_cons, ih]
      constructor
      · intro found
        rcases found with rfl | ⟨low, high, expected⟩
        · exact ⟨Nat.le_refl _, by omega, fun m low high => by omega⟩
        · refine ⟨by omega, by omega, ?_⟩
          intro m first last
          rcases Nat.lt_or_eq_of_le first with later | same
          · exact expected m later last
          · rw [← same]
            exact here
      · intro found
        rcases found with ⟨low, high, expected⟩
        rcases Nat.lt_or_eq_of_le low with later | same
        · exact .inr ⟨later, by omega, fun m first last => expected m (by omega) last⟩
        · exact .inl same.symm
    · rw [if_pos here, List.mem_singleton]
      constructor
      · intro same
        exact ⟨by omega, by omega, fun m low high => by omega⟩
      · intro found
        rcases found with ⟨low, -, expected⟩
        by_contra apart
        exact here (expected i (Nat.le_refl _) (by omega))

theorem mem_replayReads {wal : Journaler} {k : Nat} :
    k ∈ replayReads wal ↔ k < wal.count.toNat ∧
      ∀ m < k, (Journaler.record wal.file m).seq = (Journaler.record wal.file 0).seq + UInt64.ofNat m := by
  have zero : wal.count = 0 ↔ wal.count.toNat = 0 := by
    rw [← UInt64.toNat_inj]
    rfl
  rw [replayReads]
  split
  · rename_i empty
    rw [zero.mp empty]
    simp
  · rename_i some
    rw [zero] at some
    rw [List.mem_cons, mem_replayLoopReads]
    constructor
    · intro found
      rcases found with rfl | ⟨-, high, expected⟩
      · exact ⟨by omega, fun m low => by omega⟩
      · exact ⟨by omega, fun m low => expected m (Nat.zero_le _) low⟩
    · intro found
      exact .inr ⟨Nat.zero_le _, by omega, fun m _ low => found.2 m low⟩

end Sequencer

namespace Journaler

open Sequencer (replayReads mem_replayReads)

variable {j j' : Journaler}

def InMap (j : Journaler) (i : Nat) : Prop := HEADER_BYTES + ORDER_BYTES * (i + 1) ≤ j.mapBytes

/-- The log after a list of appends, and the records they wrote. An append that finds the
    log full changes nothing. -/
def appendAll : List Order → Journaler → Journaler × List Nat
  | [], j => (j, [])
  | o :: rest, j =>
    match j.append o with
    | .error _ => appendAll rest j
    | .ok j' => ((appendAll rest j').1, j.count.toNat :: (appendAll rest j').2)

/-- Whatever is appended and then replayed, only records of the mapping are touched. -/
def StaysInside (j : Journaler) : Prop :=
  ∀ orders, (∀ i ∈ (appendAll orders j).2, j.InMap i) ∧ ∀ i ∈ replayReads (appendAll orders j).1, j.InMap i

theorem append_cases (j : Journaler) (o : Order) :
    (j.capacity ≤ j.count.toNat ∧ ∃ message, j.append o = .error message) ∨
      (j.count.toNat < j.capacity ∧ ∃ j', j.append o = .ok j' ∧ j'.count = j.count + 1 ∧
        j'.capacity = j.capacity ∧ j'.mapBytes = j.mapBytes) := by
  by_cases full : j.count.toNat ≥ j.capacity
  · exact .inl ⟨full, _, by rw [append, if_pos full]⟩
  · rcases j.copy_frame (recordWord j.count.toNat 0) o.words with ⟨capacity, bytes, -, -, file⟩
    have kept : (j.copy (recordWord j.count.toNat 0) o.words).count = j.count :=
      file COUNT_WORD (by simp only [recordWord, COUNT_WORD, HEADER_BYTES]; omega)
    let j' := (j.copy (recordWord j.count.toNat 0) o.words).store COUNT_WORD (j.count + 1)
    have bumped : j'.count = j.count + 1 := by simp [j', Journaler.count, store]
    refine .inr ⟨Nat.lt_of_not_le full, j', ?_, bumped, capacity, bytes⟩
    simp only [append, if_neg full, kept]
    rfl

theorem appendAll_spec (orders : List Order) (j : Journaler) :
    (∀ i ∈ (appendAll orders j).2, i < j.capacity) ∧
      (j.count.toNat ≤ j.capacity → (appendAll orders j).1.count.toNat ≤ j.capacity) ∧
      (j.capacity ≤ j.count.toNat → (appendAll orders j).1 = j) := by
  induction orders generalizing j with
  | nil =>
    refine ⟨?_, id, fun _ => rfl⟩
    intro i member
    cases member
  | cons o rest ih =>
    rw [appendAll]
    rcases append_cases j o with ⟨full, message, refused⟩ | ⟨room, j', appended, count, capacity, -⟩
    · simp only [refused]
      exact ih j
    · simp only [appended]
      rcases ih j' with ⟨indices, bounded, -⟩
      rw [capacity] at indices bounded
      have next : j'.count.toNat ≤ j.capacity := by
        rw [count, UInt64.toNat_add]
        exact Nat.le_trans (Nat.mod_le _ _) room
      refine ⟨?_, fun _ => bounded next, fun full => absurd room (Nat.not_lt.mpr full)⟩
      intro i member
      rcases List.mem_cons.mp member with rfl | later
      · exact room
      · exact indices i later

theorem appendAll_reaches {k : Nat} (o : Order) (below : k < j.capacity) (small : k < 2 ^ 64)
    (passed : j.count.toNat ≤ k) : k ∈ (appendAll (List.replicate (k + 1 - j.count.toNat) o) j).2 := by
  generalize left : k - j.count.toNat = n
  rw [show k + 1 - j.count.toNat = n + 1 by omega]
  induction n generalizing j with
  | zero =>
    have here : j.count.toNat = k := by omega
    rcases append_cases j o with ⟨full, -⟩ | ⟨-, j', appended, -⟩
    · omega
    · rw [List.replicate_succ, appendAll]
      simp only [appended]
      rw [here]
      exact List.mem_cons_self
  | succ n ih =>
    rcases append_cases j o with ⟨full, -⟩ | ⟨-, j', appended, count, capacity, -⟩
    · omega
    · have next : j'.count.toNat = j.count.toNat + 1 := by
        rw [count, UInt64.toNat_add, show (1 : UInt64).toNat = 1 from rfl, Nat.mod_eq_of_lt (by omega)]
      rw [List.replicate_succ, appendAll]
      simp only [appended]
      apply List.mem_cons_of_mem
      exact ih (by omega) (by omega) (by omega)

theorem staysInside_of_bounded (mapped : HEADER_BYTES + ORDER_BYTES * j.capacity ≤ j.mapBytes)
    (counted : j.count.toNat ≤ j.capacity) : j.StaysInside := by
  have inside : ∀ i < j.capacity, j.InMap i := by
    intro i low
    exact Nat.le_trans (Nat.add_le_add_left (Nat.mul_le_mul_left _ low) _) mapped
  intro orders
  rcases appendAll_spec orders j with ⟨indices, bounded, -⟩
  refine ⟨fun i member => inside i (indices i member), ?_⟩
  intro i member
  exact inside i (Nat.lt_of_lt_of_le (mem_replayReads.mp member).1 (bounded counted))

inductive Source
  | create (capacityOrders : UInt64)
  | reopen (path : String) (bytes : Nat) (file : Nat → UInt64)

def Source.map : Source → Except String Journaler
  | .create capacityOrders => .ok (Journaler.create capacityOrders.toNat)
  | .reopen path bytes file => Journaler.ofFile path bytes file

/-- The size of a new file does not wrap. The count of an old one is within its size, or a
    record of it has a `seq` out of turn. -/
def Source.Bounded : Source → Prop
  | .create capacityOrders => HEADER_BYTES + capacityOrders.toNat * ORDER_BYTES < 2 ^ 64
  | .reopen _ bytes file =>
    (file COUNT_WORD).toNat ≤ (bytes - HEADER_BYTES) / ORDER_BYTES ∨
      ∃ i < (bytes - HEADER_BYTES) / ORDER_BYTES, (record file i).seq ≠ (record file 0).seq + UInt64.ofNat i

theorem ofFile_eq {path : String} {bytes : Nat} {file : Nat → UInt64} (accepted : ofFile path bytes file = .ok j) :
    HEADER_BYTES ≤ bytes ∧ j.file = file ∧ j.mapBytes = bytes ∧ j.capacity = (bytes - HEADER_BYTES) / ORDER_BYTES := by
  simp only [ofFile] at accepted
  split at accepted
  · cases accepted
  · rename_i large
    cases checked : validate file with
    | error message =>
      rw [checked] at accepted
      cases accepted
    | ok _ =>
      rw [checked] at accepted
      cases accepted
      exact ⟨Nat.le_of_not_lt large, rfl, rfl, rfl⟩

theorem create_staysInside_iff (capacityOrders : UInt64) :
    (create capacityOrders.toNat).StaysInside ↔ (Source.create capacityOrders).Bounded := by
  have bytes : (create capacityOrders.toNat).mapBytes = (HEADER_BYTES + capacityOrders.toNat * ORDER_BYTES) % 2 ^ 64 := rfl
  have capacity : (create capacityOrders.toNat).capacity = capacityOrders.toNat := rfl
  have count : (create capacityOrders.toNat).count.toNat = 0 := rfl
  have range := capacityOrders.toNat_lt
  constructor
  · intro inside
    show HEADER_BYTES + capacityOrders.toNat * ORDER_BYTES < 2 ^ 64
    by_contra wraps
    have low : (HEADER_BYTES + capacityOrders.toNat * ORDER_BYTES) % 2 ^ 64 < 2 ^ 64 := Nat.mod_lt _ (by decide)
    -- the first record that does not fit any more
    have below : ((create capacityOrders.toNat).mapBytes - HEADER_BYTES) / ORDER_BYTES < capacityOrders.toNat := by
      rw [bytes]
      simp only [HEADER_BYTES, ORDER_BYTES] at *
      omega
    have reached := appendAll_reaches (j := create capacityOrders.toNat) default below (by omega) (Nat.zero_le _)
    have bad := (inside _).1 _ reached
    simp only [InMap, HEADER_BYTES, ORDER_BYTES] at bad
    omega
  · intro fits
    change HEADER_BYTES + capacityOrders.toNat * ORDER_BYTES < 2 ^ 64 at fits
    apply staysInside_of_bounded
    · rw [bytes, capacity, Nat.mod_eq_of_lt fits, Nat.mul_comm]
    · rw [count]
      exact Nat.zero_le _

theorem ofFile_staysInside_iff {path : String} {bytes : Nat} {file : Nat → UInt64} (accepted : ofFile path bytes file = .ok j) :
    j.StaysInside ↔ (Source.reopen path bytes file).Bounded := by
  rcases ofFile_eq accepted with ⟨large, rfl, rfl, capacity⟩
  show _ ↔ (j.file COUNT_WORD).toNat ≤ (j.mapBytes - HEADER_BYTES) / ORDER_BYTES ∨
    ∃ i < (j.mapBytes - HEADER_BYTES) / ORDER_BYTES, (record j.file i).seq ≠ (record j.file 0).seq + UInt64.ofNat i
  have mapped : HEADER_BYTES + ORDER_BYTES * j.capacity ≤ j.mapBytes := by
    rw [capacity]
    simp only [HEADER_BYTES, ORDER_BYTES] at *
    omega
  rw [← capacity]
  constructor
  · intro inside
    by_contra beyond
    rw [not_or] at beyond
    rcases beyond with ⟨long, matched⟩
    have reads : j.capacity ∈ replayReads j := by
      refine mem_replayReads.mpr ⟨Nat.lt_of_not_le long, ?_⟩
      intro m low
      by_contra apart
      exact matched ⟨m, low, apart⟩
    have bad := (inside []).2 _ reads
    rw [InMap, capacity] at bad
    simp only [HEADER_BYTES, ORDER_BYTES] at *
    omega
  · intro bounded
    by_cases counted : j.count.toNat ≤ j.capacity
    · exact staysInside_of_bounded mapped counted
    · rcases bounded.resolve_left counted with ⟨k, low, apart⟩
      intro orders
      rcases appendAll_spec orders j with ⟨indices, -, unchanged⟩
      have inside : ∀ i < j.capacity, j.InMap i := by
        intro i below
        exact Nat.le_trans (Nat.add_le_add_left (Nat.mul_le_mul_left _ below) _) mapped
      refine ⟨fun i member => inside i (indices i member), ?_⟩
      rw [unchanged (by omega)]
      intro i member
      -- the loop does not pass record `k`
      have stops : i ≤ k := by
        by_contra beyond
        exact apart ((mem_replayReads.mp member).2 k (by omega))
      exact inside i (by omega)

/-- The log keeps to its mapping exactly when the size of a new file does not wrap, and the
    count of an old one does not lead past its end. -/
theorem staysInside_iff {source : Source} (mapped : source.map = .ok j) : j.StaysInside ↔ source.Bounded := by
  cases source with
  | create capacityOrders =>
    cases mapped
    exact create_staysInside_iff capacityOrders
  | reopen path bytes file => exact ofFile_staysInside_iff mapped

def headed (n : UInt64) (word : Nat) : UInt64 :=
  if word = MAGIC_WORD then WAL_MAGIC
  else if word = FORMAT_WORD then formatWord WAL_VERSION ORDER_BYTES
  else if word = COUNT_WORD then n
  else 0

/-- A log of three records, and two records under a count of nine, of which the second has a `seq` out of
    turn. -/
theorem staysInside_iff_reopened :
    (∃ j, (Source.reopen "titan.wal" 224 (appendAll [default, default, default] (create 4)).1.file).map = .ok j ∧ j.count = 3 ∧
      j.StaysInside) ∧
    ∃ j, (Source.reopen "titan.wal" 144 (headed 9)).map = .ok j ∧ j.count = 9 ∧ j.StaysInside := by
  have three : (appendAll [default, default, default] (create 4)).1.file COUNT_WORD = 3 := by decide +kernel
  have opened {bytes : Nat} {file : Nat → UInt64} {j : Journaler} (mapped : (Source.reopen "titan.wal" bytes file).map = .ok j) :
      j.file = file := (ofFile_eq (show ofFile "titan.wal" bytes file = .ok j from mapped)).2.1
  constructor
  · rcases (⟨_, rfl⟩ : ∃ j, (Source.reopen "titan.wal" 224 (appendAll [default, default, default] (create 4)).1.file).map = .ok j)
      with ⟨j, mapped⟩
    have whole : (Source.reopen "titan.wal" 224 (appendAll [default, default, default] (create 4)).1.file).Bounded := by
      left
      rw [three]
      decide
    exact ⟨j, mapped, (congrFun (opened mapped) COUNT_WORD).trans three, (staysInside_iff mapped).mpr whole⟩
  · rcases (⟨_, rfl⟩ : ∃ j, (Source.reopen "titan.wal" 144 (headed 9)).map = .ok j) with ⟨j, mapped⟩
    have turned : (Source.reopen "titan.wal" 144 (headed 9)).Bounded := .inr ⟨1, by decide, by decide +kernel⟩
    exact ⟨j, mapped, congrFun (opened mapped) COUNT_WORD, (staysInside_iff mapped).mpr turned⟩

/-- A header without records that claims one, and a capacity whose size wraps to the header. -/
theorem leaves_mapping :
    (∃ j, (Source.reopen "titan.wal" 64 (headed 1)).map = .ok j ∧ 0 ∈ replayReads j ∧ ¬j.InMap 0) ∧
      ∃ j, (Source.create 0x2000000000000000).map = .ok j ∧ 0 ∈ (appendAll [default] j).2 ∧ ¬j.InMap 0 := by
  have wrapped : (create (0x2000000000000000 : UInt64).toNat).mapBytes = 64 := by decide
  have room : 0 < (create (0x2000000000000000 : UInt64).toNat).capacity := by decide
  refine ⟨⟨_, rfl, List.mem_cons_self, ?_⟩, _, rfl, ?_, ?_⟩
  · simp [InMap, HEADER_BYTES, ORDER_BYTES]
  · exact appendAll_reaches default room (by decide) (Nat.zero_le _)
  · rw [InMap, wrapped]
    decide

end Journaler

end Titan
