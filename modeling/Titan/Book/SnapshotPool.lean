import Titan.Data.Transition
import Mathlib.Tactic.Common

namespace Titan

open Transition

namespace SnapshotPool

def CLAIM_RETRIES : Nat := 1024

/-- Where the thread inside `try_snapshot` stands. -/
inductive Writer
  | idle
  | scan (pub : Option Nat) (j : Nat)
  | fill (idx : Nat)
  deriving DecidableEq, Repr

/-- Where the thread inside `acquire` and `release` stands. -/
inductive Reader
  | idle
  | load (attempt : Nat)
  | announce (attempt idx : Nat)
  | recheck (attempt idx : Nat)
  | retract (attempt idx : Nat)
  | reading (idx : Nat)
  deriving DecidableEq, Repr

inductive Action (V : Type)
  | reserve
  | examine
  | write (word : Nat) (v : V)
  | publish
  | acquire
  | load
  | announce
  | recheck
  | retract
  | read (word : Nat)
  | release

inductive Event (V : Type)
  | silent
  | snapshot (published : Bool)
  | acquired (idx : Option Nat)
  | value (word : Nat) (v : V)

end SnapshotPool

open SnapshotPool

/-- The pool with its two threads. `published` is `none` for the index -1. `generation`,
    `image` and `latest` are history: how many buffers were published, what each of them
    held, and which one the reader acquired last. -/
structure SnapshotPool (V : Type) where
  published : Option Nat
  inUse : Nat → Bool
  buffers : Nat → Nat → V
  writer : Writer
  reader : Reader
  generation : Nat
  image : Nat → Nat → V
  latest : Nat

namespace SnapshotPool

variable {V : Type}

def create (blank : Nat → V) : SnapshotPool V where
  published := none
  inUse := fun _ => false
  buffers := fun _ => blank
  writer := .idle
  reader := .idle
  generation := 0
  image := fun _ => blank
  latest := 0

def examine (slots : Nat) (s : SnapshotPool V) (pub : Option Nat) (j : Nat) : SnapshotPool V × Event V :=
  if j < slots then
    if pub = some j then ({ s with writer := .scan pub (j + 1) }, .silent)
    else if s.inUse j then ({ s with writer := .scan pub (j + 1) }, .silent)
    else ({ s with writer := .fill j }, .silent)
  else ({ s with writer := .idle }, .snapshot false)

def write (s : SnapshotPool V) (idx word : Nat) (v : V) : SnapshotPool V :=
  { s with buffers := Function.update s.buffers idx (Function.update (s.buffers idx) word v) }

def publish (s : SnapshotPool V) (idx : Nat) : SnapshotPool V :=
  { s with
    published := some idx
    writer := .idle
    generation := s.generation + 1
    image := Function.update s.image (s.generation + 1) (s.buffers idx) }

def load (s : SnapshotPool V) (attempt : Nat) : SnapshotPool V × Event V :=
  if attempt < CLAIM_RETRIES then
    match s.published with
    | none => ({ s with reader := .idle }, .acquired none)
    | some idx => ({ s with reader := .announce attempt idx }, .silent)
  else ({ s with reader := .idle }, .acquired none)

def announce (s : SnapshotPool V) (attempt idx : Nat) : SnapshotPool V :=
  { s with inUse := Function.update s.inUse idx true, reader := .recheck attempt idx }

def recheck (s : SnapshotPool V) (attempt idx : Nat) : SnapshotPool V × Event V :=
  if s.published = some idx then
    ({ s with reader := .reading idx, latest := s.generation }, .acquired (some idx))
  else ({ s with reader := .retract attempt idx }, .silent)

def retract (s : SnapshotPool V) (attempt idx : Nat) : SnapshotPool V :=
  { s with inUse := Function.update s.inUse idx false, reader := .load (attempt + 1) }

def release (slots : Nat) (s : SnapshotPool V) (idx : Nat) : SnapshotPool V :=
  if idx < slots then { s with inUse := Function.update s.inUse idx false, reader := .idle }
  else { s with reader := .idle }

/-- The steps of the two threads, one atomic access or one word of a buffer each. -/
def step (slots : Nat) (a : Action V) (s : SnapshotPool V) : Option (SnapshotPool V × Event V) :=
  match a, s.writer, s.reader with
  | .reserve, .idle, _ => some ({ s with writer := .scan s.published 0 }, .silent)
  | .examine, .scan pub j, _ => some (s.examine slots pub j)
  | .write word v, .fill idx, _ => some (s.write idx word v, .silent)
  | .publish, .fill idx, _ => some (s.publish idx, .snapshot true)
  | .acquire, _, .idle => some ({ s with reader := .load 0 }, .silent)
  | .load, _, .load attempt => some (s.load attempt)
  | .announce, _, .announce attempt idx => some (s.announce attempt idx, .silent)
  | .recheck, _, .recheck attempt idx => some (s.recheck attempt idx)
  | .retract, _, .retract attempt idx => some (s.retract attempt idx, .silent)
  | .read word, _, .reading idx => some (s, .value word (s.buffers idx word))
  | .release, _, .reading idx => some (s.release slots idx, .silent)
  | _, _, _ => none

def Reader.flagged : Reader → Option Nat
  | .recheck _ idx | .retract _ idx | .reading idx => some idx
  | _ => none

def Reader.target : Reader → Option Nat
  | .announce _ idx | .recheck _ idx | .retract _ idx | .reading idx => some idx
  | _ => none

/-- What the scan knows: `published` has not moved, and every slot it skipped for its flag
    is the one the reader claimed before the scan. -/
structure Scanned (slots : Nat) (s : SnapshotPool V) (pub : Option Nat) (j : Nat) : Prop where
  pinned : pub = s.published
  bound : j ≤ slots
  stale : ∀ k < j, pub ≠ some k → ∀ r, s.reader.target = some r → r = k ∨ pub = some r
  once : ∀ k < j, ∀ k' < j, pub ≠ some k → pub ≠ some k' → k = k'

structure Inv (slots : Nat) (s : SnapshotPool V) : Prop where
  flags : ∀ i, s.inUse i = true ↔ s.reader.flagged = some i
  bounded : ∀ i, s.reader.target = some i → i < slots
  live : ∀ p, s.published = some p → p < slots ∧ s.buffers p = s.image s.generation
  scanning : ∀ pub j, s.writer = .scan pub j → Scanned slots s pub j
  filling : ∀ i, s.writer = .fill i → i < slots ∧ s.published ≠ some i
  reading : ∀ i, s.reader = .reading i → s.writer ≠ .fill i ∧ s.buffers i = s.image s.latest
  recent : s.latest ≤ s.generation

variable {slots : Nat} {s s' : SnapshotPool V}

theorem create_inv (slots : Nat) (blank : Nat → V) : Inv slots (create blank) := by
  refine ⟨?_, ?_, ?_, ?_, ?_, ?_, Nat.le_refl 0⟩ <;> simp [create, Reader.flagged, Reader.target]

theorem Reader.target_of_flagged {r : Reader} {i : Nat} (flagged : r.flagged = some i) : r.target = some i := by
  cases r <;> simp_all [Reader.flagged, Reader.target]

theorem write_buffers_of_ne {i idx : Nat} (word : Nat) (v : V) (other : i ≠ idx) :
    (s.write idx word v).buffers i = s.buffers i := Function.update_of_ne other _ _

theorem Inv.reserve (inv : Inv slots s) :
    Inv slots { s with writer := .scan s.published 0 } := by
  refine ⟨inv.flags, inv.bounded, inv.live, ?_, by simp, ?_, inv.recent⟩
  · intro pub j here
    simp only [Writer.scan.injEq] at here
    obtain ⟨rfl, rfl⟩ := here
    exact ⟨rfl, Nat.zero_le _, fun k low => absurd low (Nat.not_lt_zero k), fun k low => absurd low (Nat.not_lt_zero k)⟩
  · intro i here
    exact ⟨by simp, (inv.reading i here).2⟩

theorem Inv.skip {pub : Option Nat} {j : Nat} (inv : Inv slots s) (here : s.writer = .scan pub j) (low : j < slots)
    (skipped : pub = some j ∨ s.inUse j = true) : Inv slots { s with writer := .scan pub (j + 1) } := by
  obtain ⟨pinned, bound, stale, once⟩ := inv.scanning pub j here
  have claimed : pub ≠ some j → s.reader.target = some j := fun other =>
    Reader.target_of_flagged ((inv.flags j).mp (skipped.resolve_left other))
  have alone : ∀ k < j, pub ≠ some k → pub = some j := by
    intro k earlier other
    by_contra differ
    rcases stale k earlier other j (claimed differ) with same | same
    · omega
    · exact differ same
  refine ⟨inv.flags, inv.bounded, inv.live, ?_, by simp, fun i reading => ⟨by simp, (inv.reading i reading).2⟩, inv.recent⟩
  intro pub' j' moved
  simp only [Writer.scan.injEq] at moved
  obtain ⟨rfl, rfl⟩ := moved
  refine ⟨pinned, low, ?_, ?_⟩
  · intro k earlier other r target
    rcases Nat.lt_succ_iff_lt_or_eq.mp earlier with earlier | rfl
    · exact stale k earlier other r target
    · have same := claimed other
      rw [show s.reader.target = some r from target] at same
      exact .inl (Option.some.inj same)
  · intro k hk k' hk' other other'
    rcases Nat.lt_succ_iff_lt_or_eq.mp hk with hk | rfl <;> rcases Nat.lt_succ_iff_lt_or_eq.mp hk' with hk' | rfl
    · exact once k hk k' hk' other other'
    · exact absurd (alone k hk other) other'
    · exact absurd (alone k' hk' other') other
    · rfl

/-- The scan never runs off the end: it can have passed over at most two slots. -/
theorem Inv.found {pub : Option Nat} {j : Nat} (inv : Inv slots s) (enough : 3 ≤ slots)
    (here : s.writer = .scan pub j) : j < slots := by
  obtain ⟨_, bound, _, once⟩ := inv.scanning pub j here
  by_contra full
  have : j = slots := by omega
  by_cases zero : pub = some 0
  · have same := once 1 (by omega) 2 (by omega) (by simp [zero]) (by simp [zero])
    omega
  · by_cases one : pub = some 1
    · have same := once 0 (by omega) 2 (by omega) zero (by simp [one])
      omega
    · have same := once 0 (by omega) 1 (by omega) zero one
      omega

theorem Inv.examine {pub : Option Nat} {j : Nat} (inv : Inv slots s) (enough : 3 ≤ slots)
    (here : s.writer = .scan pub j) :
    Inv slots (s.examine slots pub j).1 ∧ (s.examine slots pub j).2 = .silent := by
  have low := inv.found enough here
  obtain ⟨pinned, _, _, _⟩ := inv.scanning pub j here
  rw [SnapshotPool.examine, if_pos low]
  split
  · exact ⟨inv.skip here low (.inl ‹_›), rfl⟩
  · split
    · exact ⟨inv.skip here low (.inr ‹_›), rfl⟩
    · rename_i other idle
      refine ⟨⟨inv.flags, inv.bounded, inv.live, by simp, ?_, ?_, inv.recent⟩, rfl⟩
      · intro i filling
        simp only [Writer.fill.injEq] at filling
        subst filling
        exact ⟨low, pinned ▸ other⟩
      · intro i reading
        refine ⟨?_, (inv.reading i reading).2⟩
        simp only [ne_eq, Writer.fill.injEq]
        rintro rfl
        exact idle ((inv.flags j).mpr (by rw [show s.reader = _ from reading]; rfl))

theorem Inv.write {idx : Nat} (inv : Inv slots s) (here : s.writer = .fill idx) (word : Nat) (v : V) :
    Inv slots (s.write idx word v) := by
  obtain ⟨_, hidden⟩ := inv.filling idx here
  refine ⟨inv.flags, inv.bounded, ?_, ?_, inv.filling, ?_, inv.recent⟩
  · intro p live
    have other : p ≠ idx := by rintro rfl; exact hidden live
    exact ⟨(inv.live p live).1, (write_buffers_of_ne word v other).trans (inv.live p live).2⟩
  · intro pub j scanning
    cases here.symm.trans scanning
  · intro i reading
    obtain ⟨exclusive, complete⟩ := inv.reading i reading
    have other : i ≠ idx := by rintro rfl; exact exclusive here
    exact ⟨exclusive, (write_buffers_of_ne word v other).trans complete⟩

theorem Inv.publish {idx : Nat} (inv : Inv slots s) (here : s.writer = .fill idx) : Inv slots (s.publish idx) := by
  have recent := inv.recent
  refine ⟨inv.flags, inv.bounded, ?_, ?_, ?_, ?_, ?_⟩
  · intro p live
    simp only [SnapshotPool.publish, Option.some.injEq] at live
    subst live
    exact ⟨(inv.filling idx here).1, by simp [SnapshotPool.publish]⟩
  · simp [SnapshotPool.publish]
  · simp [SnapshotPool.publish]
  · intro i reading
    refine ⟨by simp [SnapshotPool.publish], ?_⟩
    simp only [SnapshotPool.publish]
    rw [Function.update_of_ne (by omega)]
    exact (inv.reading i reading).2
  · simp only [SnapshotPool.publish]
    omega

theorem Inv.moveReader {r : Reader} (inv : Inv slots s) (flagged : r.flagged = s.reader.flagged)
    (target : ∀ i, r.target = some i → s.reader.target = some i ∨ s.published = some i)
    (notReading : ∀ i, r ≠ .reading i) : Inv slots { s with reader := r } := by
  refine ⟨?_, ?_, inv.live, ?_, inv.filling, fun i reading => absurd reading (notReading i), inv.recent⟩
  · intro i
    rw [flagged]
    exact inv.flags i
  · intro i here
    rcases target i here with former | live
    · exact inv.bounded i former
    · exact (inv.live i live).1
  · intro pub j scanning
    obtain ⟨pinned, bound, stale, once⟩ := inv.scanning pub j scanning
    refine ⟨pinned, bound, fun k low other i here => ?_, once⟩
    rcases target i here with former | live
    · exact stale k low other i former
    · exact .inr (pinned.trans live)

theorem Inv.load {attempt : Nat} (inv : Inv slots s) (here : s.reader = .load attempt) :
    Inv slots (s.load attempt).1 := by
  have quiet : s.reader.flagged = none := by rw [here]; rfl
  have stop : Inv slots { s with reader := .idle } :=
    inv.moveReader quiet.symm (by simp [Reader.target]) (by simp)
  rw [SnapshotPool.load]
  split
  · split
    · exact stop
    · rename_i idx live
      refine inv.moveReader quiet.symm ?_ (by simp)
      intro i target
      exact .inr (live.trans target)
  · exact stop

theorem Inv.flag {idx : Nat} {r : Reader} {b : Bool} (inv : Inv slots s)
    (only : ∀ i, s.reader.flagged = some i → i = idx)
    (flagged : r.flagged = if b then some idx else none)
    (target : ∀ i, r.target = some i → s.reader.target = some i) (notReading : ∀ i, r ≠ .reading i) :
    Inv slots { s with inUse := Function.update s.inUse idx b, reader := r } := by
  refine ⟨?_, fun i here => inv.bounded i (target i here), inv.live, ?_, inv.filling,
    fun i reading => absurd reading (notReading i), inv.recent⟩
  · intro i
    show Function.update s.inUse idx b i = true ↔ r.flagged = some i
    rw [flagged]
    by_cases same : i = idx
    · subst same
      cases b <;> simp
    · rw [Function.update_of_ne same, inv.flags]
      constructor
      · intro former
        exact absurd (only i former) same
      · cases b with
        | false => simp
        | true =>
          simp only [if_true, Option.some.injEq]
          intro here
          exact absurd here.symm same
  · intro pub j scanning
    obtain ⟨pinned, bound, stale, once⟩ := inv.scanning pub j scanning
    exact ⟨pinned, bound, fun k low other i here => stale k low other i (target i here), once⟩

theorem Inv.recheck {attempt idx : Nat} (inv : Inv slots s) (here : s.reader = .recheck attempt idx) :
    Inv slots (s.recheck attempt idx).1 := by
  rw [SnapshotPool.recheck]
  split
  · rename_i live
    refine ⟨?_, ?_, inv.live, ?_, inv.filling, ?_, Nat.le_refl _⟩
    · intro i
      rw [inv.flags, here]
      rfl
    · intro i target
      exact inv.bounded i (by rw [here]; exact target)
    · intro pub j scanning
      obtain ⟨pinned, bound, stale, once⟩ := inv.scanning pub j scanning
      exact ⟨pinned, bound, fun k low other i target => stale k low other i (by rw [here]; exact target), once⟩
    · intro i reading
      simp only [Reader.reading.injEq] at reading
      subst reading
      refine ⟨fun filling => (inv.filling idx filling).2 live, (inv.live idx live).2⟩
  · refine inv.moveReader ?_ ?_ (by simp)
    · rw [here]
      rfl
    · intro i target
      exact .inl (by rw [here]; exact target)

theorem step_inv (enough : 3 ≤ slots) {a : Action V} {e : Event V} (inv : Inv slots s)
    (taken : step slots a s = some (s', e)) : Inv slots s' := by
  unfold step at taken
  split at taken
  all_goals try cases taken
  · exact inv.reserve
  · simp only [Option.some.injEq] at taken
    have kept := (inv.examine enough ‹_›).1
    rwa [taken] at kept
  · exact inv.write ‹_› _ _
  · exact inv.publish ‹_›
  · rename_i idle
    exact inv.moveReader (by rw [idle]; rfl) (by simp [Reader.target]) (by simp)
  · simp only [Option.some.injEq] at taken
    have kept := inv.load ‹_›
    rwa [taken] at kept
  · rename_i here
    refine inv.flag (b := true) ?_ rfl ?_ (by simp)
    · rw [here]
      simp [Reader.flagged]
    · rw [here]
      simp [Reader.target]
  · simp only [Option.some.injEq] at taken
    have kept := inv.recheck ‹_›
    rwa [taken] at kept
  · rename_i here
    refine inv.flag (b := false) ?_ rfl (by simp [Reader.target]) (by simp)
    rw [here]
    simp [Reader.flagged, eq_comm]
  · exact inv
  · rename_i here
    have low := inv.bounded _ (by rw [here]; rfl)
    rw [release, if_pos low]
    refine inv.flag (b := false) ?_ rfl (by simp [Reader.target]) (by simp)
    rw [here]
    simp [Reader.flagged, eq_comm]

theorem reachable_inv (enough : 3 ≤ slots) {blank : Nat → V} (reach : Reachable (step slots) (create blank) s) :
    Inv slots s :=
  reach.invariant (create_inv slots blank) fun _ _ _ _ inv taken => step_inv enough inv taken

/-- What one step may show and change, seen from the buffer the reader holds. -/
structure Guarded (s s' : SnapshotPool V) (e : Event V) : Prop where
  serves : e ≠ .snapshot false
  whole : ∀ word v, e = .value word v → v = s.image s.latest word
  forward : ∀ idx, e = .acquired (some idx) →
    s.latest ≤ s'.latest ∧ s'.latest = s.generation ∧ s'.reader = .reading idx
  still : ∀ i, s.reader = .reading i → s'.buffers i = s.buffers i ∧ s'.latest = s.latest
  kept : ∀ g ≤ s.generation, s'.image g = s.image g

theorem Guarded.quiet {e : Event V} (buffers : s'.buffers = s.buffers) (latest : s'.latest = s.latest)
    (image : s'.image = s.image) (serves : e ≠ .snapshot false) (unread : ∀ word v, e ≠ .value word v)
    (unclaimed : ∀ idx, e ≠ .acquired (some idx)) : Guarded s s' e :=
  ⟨serves, fun word v shown => absurd shown (unread word v), fun idx shown => absurd shown (unclaimed idx),
    fun i _ => ⟨congrFun buffers i, latest⟩, fun g _ => congrFun image g⟩

theorem Inv.publish_guarded {idx : Nat} : Guarded s (s.publish idx) (.snapshot true) := by
  refine ⟨by simp, by simp, by simp, fun i _ => ⟨rfl, rfl⟩, fun g bound => ?_⟩
  simp only [SnapshotPool.publish]
  exact Function.update_of_ne (by omega) _ _

theorem Inv.write_guarded {idx : Nat} (inv : Inv slots s) (here : s.writer = .fill idx) (word : Nat) (v : V) :
    Guarded s (s.write idx word v) .silent := by
  refine ⟨by simp, by simp, by simp, fun i reading => ⟨?_, rfl⟩, fun g _ => rfl⟩
  have other : i ≠ idx := by rintro rfl; exact (inv.reading i reading).1 here
  exact write_buffers_of_ne word v other

theorem Inv.recheck_guarded {attempt idx : Nat} (inv : Inv slots s) (here : s.reader = .recheck attempt idx) :
    Guarded s (s.recheck attempt idx).1 (s.recheck attempt idx).2 := by
  rw [SnapshotPool.recheck]
  split
  · refine ⟨by simp, by simp, ?_, fun i reading => ?_, fun g _ => rfl⟩
    · intro i shown
      simp only [Event.acquired.injEq, Option.some.injEq] at shown
      exact ⟨inv.recent, rfl, by rw [shown]⟩
    · cases here.symm.trans reading
  · exact .quiet rfl rfl rfl (by simp) (by simp) (by simp)

theorem step_guarded (enough : 3 ≤ slots) {a : Action V} {e : Event V} (inv : Inv slots s)
    (taken : step slots a s = some (s', e)) : Guarded s s' e := by
  unfold step at taken
  split at taken
  all_goals try cases taken
  · exact .quiet rfl rfl rfl (by simp) (by simp) (by simp)
  · rename_i pub j here
    have silent := (inv.examine enough here).2
    simp only [Option.some.injEq] at taken
    rw [taken] at silent
    replace silent : e = .silent := silent
    have same : s'.buffers = s.buffers ∧ s'.latest = s.latest ∧ s'.image = s.image := by
      rw [show s' = (s.examine slots pub j).1 from (congrArg Prod.fst taken).symm, SnapshotPool.examine]
      split
      · split
        · exact ⟨rfl, rfl, rfl⟩
        · split <;> exact ⟨rfl, rfl, rfl⟩
      · exact ⟨rfl, rfl, rfl⟩
    exact .quiet same.1 same.2.1 same.2.2 (by simp [silent]) (by simp [silent]) (by simp [silent])
  · exact inv.write_guarded ‹_› _ _
  · exact Inv.publish_guarded
  · exact .quiet rfl rfl rfl (by simp) (by simp) (by simp)
  · simp only [Option.some.injEq, SnapshotPool.load] at taken
    split at taken
    · split at taken <;> cases taken <;> exact .quiet rfl rfl rfl (by simp) (by simp) (by simp)
    · cases taken
      exact .quiet rfl rfl rfl (by simp) (by simp) (by simp)
  · exact .quiet rfl rfl rfl (by simp) (by simp) (by simp)
  · simp only [Option.some.injEq] at taken
    have guarded := inv.recheck_guarded ‹_›
    rwa [taken] at guarded
  · exact .quiet rfl rfl rfl (by simp) (by simp) (by simp)
  · rename_i here
    refine ⟨by simp, ?_, by simp, fun i _ => ⟨rfl, rfl⟩, fun g _ => rfl⟩
    intro word v shown
    simp only [Event.value.injEq] at shown
    obtain ⟨rfl, rfl⟩ := shown
    rw [(inv.reading _ here).2]
  · rw [release]
    split <;> exact .quiet rfl rfl rfl (by simp) (by simp) (by simp)

/-- The buffer the reader holds is the whole of the generation it acquired and no step of
    the writer touches it; generations never go back, one flag at most is set, and the
    writer always finds a slot. -/
theorem held_buffer_never_torn (enough : 3 ≤ slots) {blank : Nat → V}
    (reach : Reachable (step slots) (create blank) s) :
    (∀ i, s.reader = .reading i → s.writer ≠ .fill i ∧ s.buffers i = s.image s.latest) ∧
      (∀ i j, s.inUse i = true → s.inUse j = true → i = j) ∧
      (∀ pub j, s.writer = .scan pub j → j < slots) ∧
      ∀ a s' e, step slots a s = some (s', e) → Guarded s s' e := by
  have inv := reachable_inv enough reach
  refine ⟨inv.reading, fun i j first second => ?_, fun pub j here => inv.found enough here,
    fun a s' e taken => step_guarded enough inv taken⟩
  have same := ((inv.flags i).mp first).symm.trans ((inv.flags j).mp second)
  exact Option.some.inj same

theorem held_buffer_never_torn_overlapping :
    ∃ s : SnapshotPool Nat, Reachable (step 3) (create fun _ => 0) s ∧ s.reader = .reading 0 ∧ s.writer = .fill 1 ∧
      s.buffers 0 = s.image s.latest := by
  have taken : ∃ s, Transition.run (step 3) [.reserve, .examine, .write 0 7, .publish, .acquire, .load, .announce,
      .recheck, .reserve, .examine, .examine, .write 0 8] (create fun _ => 0) = some s ∧
      s.reader = .reading 0 ∧ s.writer = .fill 1 := ⟨_, rfl, rfl, rfl⟩
  obtain ⟨s, path, reading, filling⟩ := taken
  have reach := Reachable.start.run path
  exact ⟨s, reach, reading, filling, ((held_buffer_never_torn (by decide) reach).1 0 reading).2⟩

end SnapshotPool

end Titan
