import Titan.Book.SnapshotFeed
import Titan.Book.SnapshotPool
import Titan.Net.Multicast

namespace Titan

open LittleEndian

namespace SnapshotPool

variable {V : Type} {slots : Nat} {s s' : SnapshotPool V} {a : Action V} {e : Event V}

def Action.ofWriter : Action V → Bool
  | .reserve | .examine | .write _ _ | .publish => true
  | _ => false

def Reader.access : Reader → Option (Action V)
  | .load _ => some .load
  | .announce _ _ => some .announce
  | .recheck _ _ => some .recheck
  | .retract _ _ => some .retract
  | _ => none

structure WriterFrame (s s' : SnapshotPool V) : Prop where
  reader : s'.reader = s.reader
  latest : s'.latest = s.latest
  grows : s.generation ≤ s'.generation
  kept : ∀ g ≤ s.generation, s'.image g = s.image g
  begun : (s.published = none ↔ s.generation = 0) → (s'.published = none ↔ s'.generation = 0)

theorem writer_frame (writes : a.ofWriter = true) (taken : step slots a s = some (s', e)) : WriterFrame s s' := by
  unfold step at taken
  split at taken
  all_goals try cases taken
  all_goals try cases writes
  · exact ⟨rfl, rfl, Nat.le_refl _, fun _ _ => rfl, id⟩
  · simp only [Option.some.injEq, SnapshotPool.examine] at taken
    split at taken
    · split at taken
      · cases taken
        exact ⟨rfl, rfl, Nat.le_refl _, fun _ _ => rfl, id⟩
      · split at taken
        all_goals cases taken
        all_goals exact ⟨rfl, rfl, Nat.le_refl _, fun _ _ => rfl, id⟩
    · cases taken
      exact ⟨rfl, rfl, Nat.le_refl _, fun _ _ => rfl, id⟩
  · exact ⟨rfl, rfl, Nat.le_refl _, fun _ _ => rfl, id⟩
  · refine ⟨rfl, rfl, Nat.le_succ _, ?_, ?_⟩
    · intro g old
      exact Function.update_of_ne (by omega) _ _
    · intro _
      exact ⟨fun none => (Option.some_ne_none _ none).elim, fun zero => (Nat.succ_ne_zero _ zero).elim⟩

structure ReaderFrame (s s' : SnapshotPool V) : Prop where
  published : s'.published = s.published
  generation : s'.generation = s.generation
  image : s'.image = s.image
  writer : s'.writer = s.writer

theorem reader_frame (reads : a.ofWriter = false) (taken : step slots a s = some (s', e)) : ReaderFrame s s' := by
  unfold step at taken
  split at taken
  all_goals try cases taken
  all_goals try cases reads
  · exact ⟨rfl, rfl, rfl, rfl⟩
  · simp only [Option.some.injEq, SnapshotPool.load] at taken
    split at taken
    · split at taken
      all_goals cases taken
      all_goals exact ⟨rfl, rfl, rfl, rfl⟩
    · cases taken
      exact ⟨rfl, rfl, rfl, rfl⟩
  · exact ⟨rfl, rfl, rfl, rfl⟩
  · simp only [Option.some.injEq, SnapshotPool.recheck] at taken
    split at taken
    all_goals cases taken
    all_goals exact ⟨rfl, rfl, rfl, rfl⟩
  · exact ⟨rfl, rfl, rfl, rfl⟩
  · exact ⟨rfl, rfl, rfl, rfl⟩
  · rw [release]
    split <;> exact ⟨rfl, rfl, rfl, rfl⟩

theorem Reader.access_reads {r : Reader} (next : r.access = some a) : a.ofWriter = false := by
  cases r <;> cases next <;> rfl

theorem access_cases (next : s.reader.access = some a) (taken : step slots a s = some (s', e)) :
    (e = .silent ∧ s'.latest = s.latest) ∨ (e = .acquired none ∧ s'.latest = s.latest) ∨
      ∃ idx, e = .acquired (some idx) ∧ s.published = some idx ∧ s'.reader = .reading idx ∧ s'.latest = s.generation := by
  cases reader : s.reader with
  | idle =>
    rw [reader] at next
    cases next
  | reading idx =>
    rw [reader] at next
    cases next
  | load attempt =>
    rw [reader] at next
    cases next
    have loads : some (s.load attempt) = some (s', e) := by
      rw [← taken, SnapshotPool.step.eq_def, reader]
    simp only [SnapshotPool.load, Option.some.injEq] at loads
    split at loads
    · split at loads
      · cases loads
        exact .inr (.inl ⟨rfl, rfl⟩)
      · cases loads
        exact .inl ⟨rfl, rfl⟩
    · cases loads
      exact .inr (.inl ⟨rfl, rfl⟩)
  | announce attempt idx =>
    rw [reader] at next
    cases next
    have announces : some (s.announce attempt idx, .silent) = some (s', e) := by
      rw [← taken, SnapshotPool.step.eq_def, reader]
    cases announces
    exact .inl ⟨rfl, rfl⟩
  | recheck attempt idx =>
    rw [reader] at next
    cases next
    have rechecks : some (s.recheck attempt idx) = some (s', e) := by
      rw [← taken, SnapshotPool.step.eq_def, reader]
    simp only [SnapshotPool.recheck, Option.some.injEq] at rechecks
    split at rechecks
    · rename_i live
      cases rechecks
      exact .inr (.inr ⟨idx, rfl, live, rfl, rfl⟩)
    · cases rechecks
      exact .inl ⟨rfl, rfl⟩
  | retract attempt idx =>
    rw [reader] at next
    cases next
    have retracts : some (s.retract attempt idx, .silent) = some (s', e) := by
      rw [← taken, SnapshotPool.step.eq_def, reader]
    cases retracts
    exact .inl ⟨rfl, rfl⟩

end SnapshotPool

open SnapshotPool

namespace SnapshotSender

/-- Where the snapshot thread stands; `last` is the call of `send_latest` after the loop, and `refused`
    tells that its `send_raw` failed. -/
inductive Phase
  | poll
  | claim (last : Bool)
  | check (last : Bool) (idx : Nat)
  | size (last : Bool) (idx : Nat)
  | send (last : Bool) (idx count : Nat) (copied : List UInt64)
  | stamp (last : Bool) (idx : Nat)
  | release (last : Bool) (idx : Nat) (refused : Bool)
  | done (refused : Bool)
  deriving DecidableEq

def Phase.held : Phase → Option Nat
  | .check _ idx | .size _ idx | .send _ idx _ _ | .stamp _ idx | .release _ idx _ => some idx
  | _ => none

def Phase.last : Phase → Bool
  | .poll => false
  | .claim last | .check last _ | .size last _ | .send last _ _ _ | .stamp last _ | .release last _ _ => last
  | .done _ => true

inductive Act
  | matcher (a : Action UInt64)
  | finish
  | poll
  | claim
  | check
  | size
  | copy
  | answer (reply : Sendto)
  | stamp
  | release

/-- The 8-byte words of a buffer that `send_latest` looks at: the third is the `feed_seq` of the
    header, and the upper half of the second its `level_count`. -/
def feedSeq (buf : Nat → UInt64) : UInt64 := buf 2
def wordCount (buf : Nat → UInt64) : Nat := 8 + 3 * ((buf 1).toNat / 2 ^ 32)

def payload (words : List UInt64) : List UInt8 := words.flatMap fun word => encode 8 word.toNat

def datagramOf (buf : Nat → UInt64) : List UInt8 := payload ((List.range (wordCount buf)).map buf)

def SENTINEL : UInt64 := 0xFFFFFFFFFFFFFFFF

end SnapshotSender

open SnapshotSender

/-- The pool, the flag of the matcher and the locals of the snapshot thread. `generations` is history:
    which image each datagram was, as far as `last_seq` knows of it. -/
structure SnapshotSender where
  pool : SnapshotPool UInt64
  matcherDone : Bool
  phase : Phase
  lastSeq : UInt64
  sent : UInt64
  udp : UdpPublisher
  generations : List Nat

namespace SnapshotSender

def create (blank : Nat → UInt64) : SnapshotSender where
  pool := SnapshotPool.create blank
  matcherDone := false
  phase := .poll
  lastSeq := SENTINEL
  sent := 0
  udp := {}
  generations := []

def after (last refused : Bool) : Phase := if last then .done refused else .poll

def claimed (last : Bool) : Event UInt64 → Phase
  | .acquired (some idx) => .check last idx
  | .acquired none => after last false
  | _ => .claim last

/-- `send_raw` with the answer of the kernel: it starts again if it was interrupted. -/
def answer (s : SnapshotSender) (last : Bool) (idx count : Nat) (copied : List UInt64) (reply : Sendto) :
    Option (SnapshotSender × Unit) :=
  match s.udp.sendRaw (payload copied) [reply] with
  | none => some ({ s with phase := .send last idx count [] }, ())
  | some (true, udp, _) => some ({ s with udp := udp, phase := .stamp last idx }, ())
  | some (false, udp, _) => some ({ s with udp := udp, phase := .release last idx true }, ())

/-- One access of either thread; the kernel copies a word of the buffer at a time, and answers when it
    has them all. -/
def step (slots : Nat) (act : Act) (s : SnapshotSender) : Option (SnapshotSender × Unit) :=
  match act, s.phase with
  | .matcher a, _ =>
    if a.ofWriter = true ∧ s.matcherDone = false then
      (SnapshotPool.step slots a s.pool).map fun r => ({ s with pool := r.1 }, ())
    else none
  | .finish, _ => if s.pool.writer = .idle then some ({ s with matcherDone := true }, ()) else none
  | .poll, .poll =>
    (SnapshotPool.step slots .acquire s.pool).map fun r => ({ s with pool := r.1, phase := .claim s.matcherDone }, ())
  | .claim, .claim last =>
    s.pool.reader.access.bind fun a => (SnapshotPool.step slots a s.pool).map fun r =>
      ({ s with pool := r.1, phase := claimed last r.2 }, ())
  | .check, .check last idx =>
    if feedSeq (s.pool.buffers idx) = s.lastSeq then some ({ s with phase := .release last idx false }, ())
    else some ({ s with phase := .size last idx }, ())
  | .size, .size last idx => some ({ s with phase := .send last idx (wordCount (s.pool.buffers idx)) [] }, ())
  | .copy, .send last idx count copied =>
    if copied.length < count then
      some ({ s with phase := .send last idx count (copied ++ [s.pool.buffers idx copied.length]) }, ())
    else none
  | .answer reply, .send last idx count copied =>
    if copied.length = count then answer s last idx count copied reply else none
  | .stamp, .stamp last idx =>
    some ({ s with
      sent := s.sent + 1
      lastSeq := feedSeq (s.pool.buffers idx)
      phase := .release last idx false
      generations := s.generations ++ [s.pool.latest] }, ())
  | .release, .release last _ refused =>
    (SnapshotPool.step slots .release s.pool).map fun r => ({ s with pool := r.1, phase := after last refused }, ())
  | _, _ => none

def out (s : SnapshotSender) : List Nat :=
  match s.phase with
  | .stamp _ _ => s.generations ++ [s.pool.latest]
  | _ => s.generations

def lastSeqOf (image : Nat → Nat → UInt64) (generations : List Nat) : UInt64 :=
  match generations.getLast? with
  | none => SENTINEL
  | some g => feedSeq (image g)

/-- What went out, against the images that were published. -/
structure Log (s : SnapshotSender) : Prop where
  wire : s.udp.wire = s.out.map fun g => datagramOf (s.pool.image g)
  datagrams : s.udp.datagrams_ = UInt64.ofNat s.out.length
  sent : s.sent = UInt64.ofNat s.generations.length
  sorted : s.out.Pairwise (· < ·)
  bounded : ∀ g ∈ s.out, 1 ≤ g ∧ g ≤ s.pool.latest
  noted : s.lastSeq = lastSeqOf s.pool.image s.generations

structure Holds (pool : SnapshotPool UInt64) (last : Bool) (idx : Nat) : Prop where
  reader : pool.reader = .reading idx
  some : 1 ≤ pool.latest
  newest : last = true → pool.latest = pool.generation

/-- Once the matcher has stopped, `acquire` succeeds in its first round. -/
def LastClaim (pool : SnapshotPool UInt64) : Prop :=
  pool.reader = .load 0 ∨ ∃ idx, pool.published = some idx ∧ (pool.reader = .announce 0 idx ∨ pool.reader = .recheck 0 idx)

def Facts (pool : SnapshotPool UInt64) (lastSeq : UInt64) : Phase → Prop
  | .poll => True
  | .claim last => last = true → LastClaim pool
  | .check last idx => Holds pool last idx
  | .size last idx => Holds pool last idx ∧ feedSeq (pool.image pool.latest) ≠ lastSeq
  | .send last idx count copied =>
    Holds pool last idx ∧ feedSeq (pool.image pool.latest) ≠ lastSeq ∧ count = wordCount (pool.image pool.latest) ∧
      copied = (List.range copied.length).map (pool.image pool.latest)
  | .stamp last idx => Holds pool last idx
  | .release last idx refused => Holds pool last idx ∧ (refused = true ∨ feedSeq (pool.image pool.latest) = lastSeq)
  | .done refused => pool.generation = 0 ∨ refused = true ∨ feedSeq (pool.image pool.generation) = lastSeq

structure Sound (slots : Nat) (s : SnapshotSender) : Prop where
  pool : Inv slots s.pool
  begun : s.pool.published = none ↔ s.pool.generation = 0
  ended : s.phase.last = true → s.matcherDone = true
  facts : Facts s.pool s.lastSeq s.phase
  log : s.Log

variable {slots : Nat} {s s' : SnapshotSender}

theorem create_sound (slots : Nat) (blank : Nat → UInt64) : Sound slots (create blank) where
  pool := create_inv slots blank
  begun := ⟨fun _ => rfl, fun _ => rfl⟩
  ended last := by cases last
  facts := trivial
  log := ⟨rfl, rfl, rfl, .nil, fun g member => (List.not_mem_nil member).elim, rfl⟩

theorem lastSeqOf_congr {image image' : Nat → Nat → UInt64} {generations : List Nat}
    (same : ∀ g ∈ generations, image' g = image g) : lastSeqOf image' generations = lastSeqOf image generations := by
  unfold lastSeqOf
  cases last : generations.getLast? with
  | none => rfl
  | some g =>
    show feedSeq (image' g) = feedSeq (image g)
    rw [same g (List.mem_of_getLast? last)]

theorem out_of_generations (s : SnapshotSender) : ∀ g ∈ s.generations, g ∈ s.out := by
  intro g member
  unfold out
  split
  · exact List.mem_append_left _ member
  · exact member

theorem out_of_phase (before : ∀ last idx, s.phase ≠ .stamp last idx) : s.out = s.generations := by
  unfold out
  split
  · rename_i last idx here
    exact (before last idx here).elim
  · rfl

theorem Log.frame (log : s.Log) (wire : s'.udp.wire = s.udp.wire) (datagrams : s'.udp.datagrams_ = s.udp.datagrams_)
    (sent : s'.sent = s.sent) (lastSeq : s'.lastSeq = s.lastSeq) (generations : s'.generations = s.generations)
    (same : s'.out = s.out) (newer : s.pool.latest ≤ s'.pool.latest)
    (image : ∀ g ≤ s.pool.latest, s'.pool.image g = s.pool.image g) : s'.Log where
  wire := by
    rw [wire, same, log.wire]
    apply List.map_congr_left
    intro g member
    rw [image g (log.bounded g member).2]
  datagrams := by rw [datagrams, same, log.datagrams]
  sent := by rw [sent, generations, log.sent]
  sorted := by
    rw [same]
    exact log.sorted
  bounded := by
    rw [same]
    intro g member
    exact ⟨(log.bounded g member).1, Nat.le_trans (log.bounded g member).2 newer⟩
  noted := by
    rw [lastSeq, generations, log.noted]
    apply (lastSeqOf_congr _).symm
    intro g member
    exact image g (log.bounded g (out_of_generations s g member)).2

theorem Facts.of_frame {pool pool' : SnapshotPool UInt64} {lastSeq : UInt64} {phase : Phase} (facts : Facts pool lastSeq phase)
    (early : phase.last = false) (reader : pool'.reader = pool.reader) (latest : pool'.latest = pool.latest)
    (image : pool'.image pool.latest = pool.image pool.latest) : Facts pool' lastSeq phase := by
  have holds : ∀ {last idx}, last = false → Holds pool last idx → Holds pool' last idx := by
    intro last idx first held
    refine ⟨reader.trans held.reader, ?_, ?_⟩
    · rw [latest]
      exact held.some
    · intro final
      exact (Bool.false_ne_true (first.symm.trans final)).elim
  cases phase with
  | poll => trivial
  | claim last =>
    intro final
    exact (Bool.false_ne_true (early.symm.trans final)).elim
  | check last idx => exact holds early facts
  | size last idx =>
    refine ⟨holds early facts.1, ?_⟩
    rw [latest, image]
    exact facts.2
  | send last idx count copied =>
    refine ⟨holds early facts.1, ?_⟩
    rw [latest, image]
    exact facts.2
  | stamp last idx => exact holds early facts
  | release last idx refused =>
    refine ⟨holds early facts.1, ?_⟩
    rw [latest, image]
    exact facts.2
  | done refused => cases early

theorem Sound.matcher {a : Action UInt64} {pool : SnapshotPool UInt64} {e : Event UInt64} (enough : 3 ≤ slots) (sound : Sound slots s)
    (writes : a.ofWriter = true) (running : s.matcherDone = false) (taken : SnapshotPool.step slots a s.pool = some (pool, e)) :
    Sound slots { s with pool := pool } := by
  have frame := writer_frame writes taken
  have recent := sound.pool.recent
  have early : s.phase.last = false := by
    by_contra late
    have done := sound.ended (Bool.eq_true_of_not_eq_false late)
    exact Bool.false_ne_true (running.symm.trans done)
  refine ⟨step_inv enough sound.pool taken, frame.begun sound.begun, sound.ended, ?_, ?_⟩
  · exact sound.facts.of_frame early frame.reader frame.latest (frame.kept _ recent)
  · apply sound.log.frame
    · rfl
    · rfl
    · rfl
    · rfl
    · rfl
    · unfold out
      rw [frame.latest]
    · exact Nat.le_of_eq frame.latest.symm
    · intro g old
      exact frame.kept g (Nat.le_trans old recent)

theorem Sound.quiet {a : Action UInt64} {pool : SnapshotPool UInt64} {e : Event UInt64} {phase : Phase} (enough : 3 ≤ slots)
    (sound : Sound slots s) (reads : a.ofWriter = false) (taken : SnapshotPool.step slots a s.pool = some (pool, e))
    (newer : s.pool.latest ≤ pool.latest) (before : ∀ last idx, s.phase ≠ .stamp last idx)
    (behind : ∀ last idx, phase ≠ .stamp last idx) (ended : phase.last = true → s.matcherDone = true) (facts : Facts pool s.lastSeq phase) :
    Sound slots { s with pool := pool, phase := phase } := by
  have frame := reader_frame reads taken
  have begun := sound.begun
  rw [← frame.published, ← frame.generation] at begun
  refine ⟨step_inv enough sound.pool taken, begun, ended, facts, ?_⟩
  apply sound.log.frame
  · rfl
  · rfl
  · rfl
  · rfl
  · rfl
  · rw [out_of_phase before, out_of_phase behind]
  · exact newer
  · intro g _
    exact congrFun frame.image g

theorem Sound.stay {udp : UdpPublisher} {was phase : Phase} (sound : Sound slots s) (here : s.phase = was)
    (before : ∀ last idx, was ≠ .stamp last idx) (behind : ∀ last idx, phase ≠ .stamp last idx) (ended : phase.last = was.last)
    (wire : udp.wire = s.udp.wire) (datagrams : udp.datagrams_ = s.udp.datagrams_) (facts : Facts s.pool s.lastSeq phase) :
    Sound slots { s with udp := udp, phase := phase } := by
  subst here
  refine ⟨sound.pool, sound.begun, fun final => sound.ended (ended.symm.trans final), facts, ?_⟩
  apply sound.log.frame
  · exact wire
  · exact datagrams
  · rfl
  · rfl
  · rfl
  · rw [out_of_phase before, out_of_phase behind]
  · exact Nat.le_refl _
  · intro g _
    rfl

theorem after_last (last refused : Bool) : (after last refused).last = last := by cases last <;> rfl

theorem after_ne_stamp (last refused : Bool) : ∀ last' idx, after last refused ≠ .stamp last' idx := by
  intro last' idx
  cases last <;> exact Phase.noConfusion

theorem LastClaim.access {pool pool' : SnapshotPool UInt64} {a : Action UInt64} {e : Event UInt64} (claim : LastClaim pool)
    (next : pool.reader.access = some a) (taken : SnapshotPool.step slots a pool = some (pool', e)) :
    (e = .silent ∧ LastClaim pool') ∨ (e = .acquired none ∧ pool.published = none) ∨ ∃ idx, e = .acquired (some idx) := by
  rcases claim with loading | ⟨idx, live, announcing | rechecking⟩
  · rw [loading] at next
    cases next
    have loads : some (pool.load 0) = some (pool', e) := by
      rw [← taken, SnapshotPool.step.eq_def, loading]
    rw [SnapshotPool.load, if_pos (by decide)] at loads
    split at loads
    · rename_i none
      cases loads
      exact .inr (.inl ⟨rfl, none⟩)
    · rename_i idx live
      cases loads
      exact .inl ⟨rfl, .inr ⟨idx, live, .inl rfl⟩⟩
  · rw [announcing] at next
    cases next
    have announces : some (pool.announce 0 idx, .silent) = some (pool', e) := by
      rw [← taken, SnapshotPool.step.eq_def, announcing]
    cases announces
    exact .inl ⟨rfl, .inr ⟨idx, live, .inr rfl⟩⟩
  · rw [rechecking] at next
    cases next
    have rechecks : some (pool.recheck 0 idx) = some (pool', e) := by
      rw [← taken, SnapshotPool.step.eq_def, rechecking]
    rw [SnapshotPool.recheck, if_pos live] at rechecks
    cases rechecks
    exact .inr (.inr ⟨idx, rfl⟩)

theorem Sound.claim {a : Action UInt64} {pool : SnapshotPool UInt64} {e : Event UInt64} {last : Bool} (enough : 3 ≤ slots)
    (sound : Sound slots s) (here : s.phase = .claim last) (next : s.pool.reader.access = some a)
    (taken : SnapshotPool.step slots a s.pool = some (pool, e)) : Sound slots { s with pool := pool, phase := claimed last e } := by
  have reads := Reader.access_reads next
  have frame := reader_frame reads taken
  have facts := sound.facts
  have late := sound.ended
  rw [here] at facts late
  have before : ∀ last idx, s.phase ≠ .stamp last idx := by
    intro last' idx stamping
    cases here.symm.trans stamping
  rcases access_cases next taken with ⟨rfl, same⟩ | ⟨rfl, same⟩ | ⟨idx, rfl, live, held, newest⟩
  · apply sound.quiet enough reads taken (Nat.le_of_eq same.symm) before (fun _ _ => Phase.noConfusion) late
    intro final
    rcases (facts final).access next taken with ⟨-, claim⟩ | ⟨other, -⟩ | ⟨idx, other⟩
    · exact claim
    · cases other
    · cases other
  · apply sound.quiet enough reads taken (Nat.le_of_eq same.symm) before (after_ne_stamp last false)
    · intro final
      exact late ((after_last last false).symm.trans final)
    · cases last with
      | false => trivial
      | true =>
        rcases (facts rfl).access next taken with ⟨other, -⟩ | ⟨-, none⟩ | ⟨idx, other⟩
        · cases other
        · exact .inl (frame.generation.trans (sound.begun.mp none))
        · cases other
  · have some' : s.pool.generation ≠ 0 := by
      intro none
      rw [sound.begun.mpr none] at live
      cases live
    apply sound.quiet enough reads taken
    · rw [newest]
      exact sound.pool.recent
    · exact before
    · exact fun _ _ => Phase.noConfusion
    · exact late
    · refine ⟨held, ?_, fun _ => newest.trans frame.generation.symm⟩
      rw [newest]
      exact Nat.one_le_iff_ne_zero.mpr some'

theorem last_of_sorted {l : List Nat} {g : Nat} (sorted : l.Pairwise (· < ·)) (member : g ∈ l) (top : ∀ g' ∈ l, g' ≤ g) :
    l.getLast? = some g := by
  rcases List.eq_nil_or_concat l with rfl | ⟨front, last, rfl⟩
  · cases member
  · rw [List.concat_eq_append] at sorted member top ⊢
    have low := top last (List.mem_append_right _ (List.mem_singleton.mpr rfl))
    rw [List.getLast?_concat]
    rcases List.mem_append.mp member with early | same
    · have less := (List.pairwise_append.mp sorted).2.2 g early last (List.mem_singleton.mpr rfl)
      omega
    · rw [List.mem_singleton.mp same]

theorem Sound.taken {last : Bool} {idx count : Nat} {copied : List UInt64} (sound : Sound slots s)
    (here : s.phase = .send last idx count copied) (all : copied.length = count) :
    Sound slots { s with
      udp := { s.udp with datagrams_ := s.udp.datagrams_ + 1, wire := s.udp.wire ++ [payload copied] }
      phase := .stamp last idx } := by
  have facts := sound.facts
  rw [here] at facts
  rcases facts with ⟨held, fresh, size, read⟩
  have quiet : s.out = s.generations := by
    apply out_of_phase
    intro last' idx' stamping
    cases here.symm.trans stamping
  have log := sound.log
  have older : ∀ g ∈ s.generations, g < s.pool.latest := by
    intro g member
    have bounded := log.bounded g (out_of_generations s g member)
    apply Nat.lt_of_le_of_ne bounded.2
    intro same
    subst same
    have top : s.generations.getLast? = some s.pool.latest := by
      have sorted := log.sorted
      rw [quiet] at sorted
      exact last_of_sorted sorted member fun g' member' => (log.bounded g' (out_of_generations s g' member')).2
    have noted := log.noted
    rw [lastSeqOf, top] at noted
    exact fresh noted.symm
  refine ⟨sound.pool, sound.begun, ?_, held, ?_⟩
  · intro final
    have late := sound.ended
    rw [here] at late
    exact late final
  · have image : payload copied = datagramOf (s.pool.image s.pool.latest) := by
      rw [datagramOf, ← size, ← all, ← read]
    constructor
    · show s.udp.wire ++ [payload copied] = (s.generations ++ [s.pool.latest]).map fun g => datagramOf (s.pool.image g)
      rw [log.wire, quiet, image, List.map_append, List.map_singleton]
    · show s.udp.datagrams_ + 1 = UInt64.ofNat (s.generations ++ [s.pool.latest]).length
      rw [log.datagrams, quiet, List.length_append, UInt64.ofNat_add]
      rfl
    · exact log.sent
    · show (s.generations ++ [s.pool.latest]).Pairwise (· < ·)
      have sorted := log.sorted
      rw [quiet] at sorted
      rw [List.pairwise_append]
      refine ⟨sorted, List.pairwise_singleton _ _, ?_⟩
      intro g member newest same
      rw [List.mem_singleton.mp same]
      exact older g member
    · show ∀ g ∈ s.generations ++ [s.pool.latest], 1 ≤ g ∧ g ≤ s.pool.latest
      intro g member
      rcases List.mem_append.mp member with old | new
      · exact log.bounded g (out_of_generations s g old)
      · rw [List.mem_singleton.mp new]
        exact ⟨held.some, Nat.le_refl _⟩
    · exact log.noted

theorem Sound.stamping {last : Bool} {idx : Nat} (sound : Sound slots s) (here : s.phase = .stamp last idx) :
    Sound slots { s with
      sent := s.sent + 1
      lastSeq := feedSeq (s.pool.buffers idx)
      phase := .release last idx false
      generations := s.generations ++ [s.pool.latest] } := by
  have held := sound.facts
  rw [here] at held
  have buffer : s.pool.buffers idx = s.pool.image s.pool.latest := (sound.pool.reading idx held.reader).2
  have log := sound.log
  have whole : s.out = s.generations ++ [s.pool.latest] := by
    unfold out
    rw [here]
  have wire := log.wire
  have datagrams := log.datagrams
  have sorted := log.sorted
  have bounded := log.bounded
  rw [whole] at wire datagrams sorted bounded
  refine ⟨sound.pool, sound.begun, ?_, ⟨held, .inr ?_⟩, wire, datagrams, ?_, sorted, bounded, ?_⟩
  · intro final
    have late := sound.ended
    rw [here] at late
    exact late final
  · exact congrArg feedSeq buffer.symm
  · show s.sent + 1 = UInt64.ofNat (s.generations ++ [s.pool.latest]).length
    rw [log.sent, List.length_append, UInt64.ofNat_add]
    rfl
  · show feedSeq (s.pool.buffers idx) = lastSeqOf s.pool.image (s.generations ++ [s.pool.latest])
    rw [lastSeqOf, List.getLast?_concat, buffer]

theorem Sound.releasing {pool : SnapshotPool UInt64} {e : Event UInt64} {last refused : Bool} {idx : Nat} (enough : 3 ≤ slots)
    (sound : Sound slots s) (here : s.phase = .release last idx refused)
    (taken : SnapshotPool.step slots .release s.pool = some (pool, e)) :
    Sound slots { s with pool := pool, phase := after last refused } := by
  have frame := reader_frame rfl taken
  have facts := sound.facts
  rw [here] at facts
  rcases facts with ⟨held, stamped⟩
  have same : s.pool.latest = pool.latest := by
    have releases : some (s.pool.release slots idx, .silent) = some (pool, e) := by
      rw [← taken, SnapshotPool.step.eq_def, held.reader]
    cases releases
    rw [SnapshotPool.release]
    split <;> rfl
  apply sound.quiet enough rfl taken (Nat.le_of_eq same)
  · intro last' idx' stamping
    cases here.symm.trans stamping
  · exact after_ne_stamp last refused
  · intro final
    have late := sound.ended
    rw [here] at late
    exact late ((after_last last refused).symm.trans final)
  · cases last with
    | false => trivial
    | true =>
      have newest := held.newest rfl
      rw [newest] at stamped
      show pool.generation = 0 ∨ refused = true ∨ feedSeq (pool.image pool.generation) = s.lastSeq
      rw [frame.generation, frame.image]
      exact .inr stamped

theorem Sound.polling {pool : SnapshotPool UInt64} {e : Event UInt64} (enough : 3 ≤ slots) (sound : Sound slots s)
    (here : s.phase = .poll) (taken : SnapshotPool.step slots .acquire s.pool = some (pool, e)) :
    Sound slots { s with pool := pool, phase := .claim s.matcherDone } := by
  cases reader : s.pool.reader with
  | idle =>
    have acquires : some ({ s.pool with reader := .load 0 }, .silent) = some (pool, e) := by
      rw [← taken, SnapshotPool.step.eq_def, reader]
    cases acquires
    apply sound.quiet enough rfl taken (Nat.le_refl _)
    · intro last' idx' stamping
      cases here.symm.trans stamping
    · exact fun _ _ => Phase.noConfusion
    · exact id
    · exact fun _ => .inl rfl
  | _ =>
    rw [SnapshotPool.step.eq_def, reader] at taken
    cases taken

theorem sendRaw_cases (u : UdpPublisher) (data : List UInt8) (reply : Sendto) :
    u.sendRaw data [reply] = none ∨
      u.sendRaw data [reply] = some (true, { u with datagrams_ := u.datagrams_ + 1, wire := u.wire ++ [data] }, []) ∨
      u.sendRaw data [reply] = some (false, { u with drops_ := u.drops_ + 1 }, []) := by
  rw [UdpPublisher.sendRaw, UdpPublisher.sendRaw]
  split
  · exact .inl rfl
  · split
    · exact .inr (.inl rfl)
    · exact .inr (.inr rfl)

theorem Sound.answering {last : Bool} {idx count : Nat} {copied : List UInt64} {reply : Sendto} {shown : Unit} (sound : Sound slots s)
    (here : s.phase = .send last idx count copied) (all : copied.length = count)
    (taken : answer s last idx count copied reply = some (s', shown)) : Sound slots s' := by
  have facts := sound.facts
  rw [here] at facts
  unfold answer at taken
  rcases sendRaw_cases s.udp (payload copied) reply with call | call | call
  · rw [call] at taken
    cases taken
    exact sound.stay here (fun _ _ => Phase.noConfusion) (fun _ _ => Phase.noConfusion) rfl rfl rfl
      ⟨facts.1, facts.2.1, facts.2.2.1, rfl⟩
  · rw [call] at taken
    cases taken
    exact sound.taken here all
  · rw [call] at taken
    cases taken
    exact sound.stay here (fun _ _ => Phase.noConfusion) (fun _ _ => Phase.noConfusion) rfl rfl rfl ⟨facts.1, .inl rfl⟩

theorem step_sound {act : Act} {reply : Unit} (enough : 3 ≤ slots) (sound : Sound slots s)
    (taken : step slots act s = some (s', reply)) : Sound slots s' := by
  have facts := sound.facts
  unfold step at taken
  split at taken
  · rename_i a
    split at taken
    · rename_i may
      rcases Option.map_eq_some_iff.mp taken with ⟨⟨pool, e⟩, moved, same⟩
      cases same
      exact sound.matcher enough may.1 may.2 moved
    · cases taken
  · split at taken
    · cases taken
      exact ⟨sound.pool, sound.begun, fun _ => rfl, facts, sound.log.frame rfl rfl rfl rfl rfl rfl (Nat.le_refl _) fun _ _ => rfl⟩
    · cases taken
  · rename_i here
    rcases Option.map_eq_some_iff.mp taken with ⟨⟨pool, e⟩, moved, same⟩
    cases same
    exact sound.polling enough here moved
  · rename_i last here
    rcases Option.bind_eq_some_iff.mp taken with ⟨a, next, moves⟩
    rcases Option.map_eq_some_iff.mp moves with ⟨⟨pool, e⟩, moved, same⟩
    cases same
    exact sound.claim enough here next moved
  · rename_i last idx here
    rw [here] at facts
    have buffer := (sound.pool.reading idx facts.reader).2
    split at taken
    · rename_i known
      cases taken
      rw [buffer] at known
      exact sound.stay here (fun _ _ => Phase.noConfusion) (fun _ _ => Phase.noConfusion) rfl rfl rfl ⟨facts, .inr known⟩
    · rename_i fresh
      cases taken
      rw [buffer] at fresh
      exact sound.stay here (fun _ _ => Phase.noConfusion) (fun _ _ => Phase.noConfusion) rfl rfl rfl ⟨facts, fresh⟩
  · rename_i last idx here
    rw [here] at facts
    have buffer := (sound.pool.reading idx facts.1.reader).2
    cases taken
    exact sound.stay here (fun _ _ => Phase.noConfusion) (fun _ _ => Phase.noConfusion) rfl rfl rfl
      ⟨facts.1, facts.2, by rw [buffer], rfl⟩
  · rename_i last idx count copied here
    rw [here] at facts
    have buffer := (sound.pool.reading idx facts.1.reader).2
    split at taken
    · cases taken
      have more : copied ++ [s.pool.buffers idx copied.length] =
          (List.range (copied ++ [s.pool.buffers idx copied.length]).length).map (s.pool.image s.pool.latest) := by
        rw [List.length_append, List.length_singleton, List.range_succ, List.map_append, ← facts.2.2.2, List.map_singleton, buffer]
      exact sound.stay here (fun _ _ => Phase.noConfusion) (fun _ _ => Phase.noConfusion) rfl rfl rfl
        ⟨facts.1, facts.2.1, facts.2.2.1, more⟩
    · cases taken
  · rename_i reply last idx count copied here
    split at taken
    · rename_i all
      exact sound.answering here all taken
    · cases taken
  · rename_i last idx here
    cases taken
    exact sound.stamping here
  · rename_i last idx refused here
    rcases Option.map_eq_some_iff.mp taken with ⟨⟨pool, e⟩, moved, same⟩
    cases same
    exact sound.releasing enough here moved
  · cases taken

def wordsOf (maxLevels : Nat) (buf : SnapshotBuffer) (i : Nat) : UInt64 :=
  UInt64.ofNat (word 8 (SnapshotBuffer.bytes maxLevels buf) i)

theorem bytes_length (maxLevels : Nat) (buf : SnapshotBuffer) :
    (SnapshotBuffer.bytes maxLevels buf).length = 8 * (8 + 3 * maxLevels) := by
  have levels : ∀ i : Nat, (pack (SnapshotBuffer.levelFields (buf.levels i))).length = 24 := fun i => Decoder.levelFields_length _
  rw [SnapshotBuffer.bytes, List.length_append, Decoder.headerFields_length, length_flatMap levels, List.length_range]
  omega

theorem wordsOf_toNat (maxLevels : Nat) (buf : SnapshotBuffer) (i : Nat) :
    (wordsOf maxLevels buf i).toNat = word 8 (SnapshotBuffer.bytes maxLevels buf) i := by
  rw [wordsOf, UInt64.toNat_ofNat']
  apply Nat.mod_eq_of_lt
  apply Nat.lt_of_lt_of_le (decode_lt _)
  exact Nat.pow_le_pow_right (by decide) (List.length_take_le ..)

theorem header_bytes (maxLevels : Nat) (buf : SnapshotBuffer) :
    ∃ rest, SnapshotBuffer.bytes maxLevels buf =
      encode 8 buf.header.magic.toNat ++ (encode 8 (buf.header.version.toNat + 256 ^ 4 * buf.header.levelCount.toNat) ++
        (encode 8 buf.header.feedSeq.toNat ++ rest)) := by
  have version := buf.header.version.toNat_lt
  have halves := encode_append (show buf.header.version.toNat < 256 ^ 4 by omega) 4 buf.header.levelCount.toNat
  rw [halves, SnapshotBuffer.bytes, SnapshotBuffer.headerFields]
  simp only [pack_cons, List.append_assoc]
  exact ⟨_, rfl⟩

theorem header_words (maxLevels : Nat) (buf : SnapshotBuffer) :
    wordCount (wordsOf maxLevels buf) = 8 + 3 * buf.header.levelCount.toNat ∧
      feedSeq (wordsOf maxLevels buf) = buf.header.feedSeq := by
  have version := buf.header.version.toNat_lt
  have count := buf.header.levelCount.toNat_lt
  have seq := buf.header.feedSeq.toNat_lt
  rcases header_bytes maxLevels buf with ⟨rest, bytes⟩
  have second : word 8 (SnapshotBuffer.bytes maxLevels buf) 1 = buf.header.version.toNat + 256 ^ 4 * buf.header.levelCount.toNat := by
    rw [word, bytes, List.drop_left' (encode_length ..), List.take_left' (encode_length ..), decode_encode (by omega)]
  have third : word 8 (SnapshotBuffer.bytes maxLevels buf) 2 = buf.header.feedSeq.toNat := by
    rw [word, bytes, ← List.append_assoc, List.drop_left' (by rw [List.length_append, encode_length, encode_length]),
      List.take_left' (encode_length ..), decode_encode (by omega)]
  constructor
  · rw [wordCount, wordsOf_toNat, second]
    omega
  · rw [feedSeq, wordsOf, third, UInt64.ofNat_toNat]

structure Filled (maxLevels : Nat) (image : Nat → UInt64) (buf : SnapshotBuffer) : Prop where
  fits : buf.header.levelCount.toNat ≤ maxLevels
  words : ∀ i < 8 + 3 * buf.header.levelCount.toNat, image i = wordsOf maxLevels buf i

theorem Filled.datagram {maxLevels : Nat} {image : Nat → UInt64} {buf : SnapshotBuffer} (filled : Filled maxLevels image buf) :
    datagramOf image = SnapshotBuffer.datagram maxLevels buf := by
  have fits := filled.fits
  have inside : 8 * (8 + 3 * buf.header.levelCount.toNat) ≤ (SnapshotBuffer.bytes maxLevels buf).length := by
    rw [bytes_length]
    omega
  have size : 64 + 24 * buf.header.levelCount.toNat = 8 * (8 + 3 * buf.header.levelCount.toNat) := by omega
  have count : wordCount image = 8 + 3 * buf.header.levelCount.toNat := by
    rw [← (header_words maxLevels buf).1, wordCount, wordCount, filled.words 1 (by omega)]
  have words : (List.range (wordCount image)).map image = (List.range (wordCount image)).map (wordsOf maxLevels buf) := by
    apply List.map_congr_left
    intro i member
    rw [List.mem_range, count] at member
    exact filled.words i member
  rw [datagramOf, words, payload, count, List.flatMap_map, SnapshotBuffer.datagram, size, ← flatMap_word inside]
  simp only [wordsOf_toNat]

/-- In any interleaving with the matcher, and whatever the kernel answers: each datagram on the snapshot
    channel is the whole of one published image, and no image goes out twice or after a later one. When the
    thread ends, unless its last send was refused, the last image it sent carries the number of the last
    one published, and is that image if no earlier one carries the number. -/
theorem sends_fresh_images (enough : 3 ≤ slots) {blank : Nat → UInt64} (reach : Transition.Reachable (step slots) (create blank) s) :
    ∃ generations : List Nat,
      s.udp.wire = generations.map (fun g => datagramOf (s.pool.image g)) ∧ generations.Pairwise (· < ·) ∧
      (∀ g ∈ generations, 1 ≤ g ∧ g ≤ s.pool.generation) ∧ s.udp.datagrams_ = UInt64.ofNat generations.length ∧
      (s.phase = .done false → s.pool.generation ≠ 0 → feedSeq (s.pool.image s.pool.generation) ≠ SENTINEL →
        ∃ g, generations.getLast? = some g ∧ feedSeq (s.pool.image g) = feedSeq (s.pool.image s.pool.generation) ∧
          ((∀ g', 1 ≤ g' → g' < s.pool.generation → feedSeq (s.pool.image g') ≠ feedSeq (s.pool.image s.pool.generation)) →
            g = s.pool.generation)) ∧
      ∀ (maxLevels : Nat) (bufs : Nat → SnapshotBuffer),
        (∀ g ∈ generations, Filled maxLevels (s.pool.image g) (bufs g)) →
          s.udp.wire = generations.map fun g => SnapshotBuffer.datagram maxLevels (bufs g) := by
  have sound : Sound slots s := reach.invariant (create_sound slots blank) fun _ _ _ _ before taken => step_sound enough before taken
  have log := sound.log
  have bounded : ∀ g ∈ s.out, 1 ≤ g ∧ g ≤ s.pool.generation := by
    intro g member
    exact ⟨(log.bounded g member).1, Nat.le_trans (log.bounded g member).2 sound.pool.recent⟩
  refine ⟨s.out, log.wire, log.sorted, bounded, log.datagrams, ?_, ?_⟩
  · intro ended published proper
    have facts := sound.facts
    have quiet : s.out = s.generations := by
      unfold out
      rw [ended]
    rw [ended] at facts
    rcases facts with none | refused | same
    · exact (published none).elim
    · cases refused
    · have noted := log.noted
      rw [quiet] at bounded ⊢
      unfold lastSeqOf at noted
      cases last : s.generations.getLast? with
      | none =>
        rw [last] at noted
        exact (proper (same.trans noted)).elim
      | some g =>
        rw [last] at noted
        refine ⟨g, rfl, (same.trans noted).symm, ?_⟩
        intro single
        have sent := bounded g (List.mem_of_getLast? last)
        by_contra other
        exact single g sent.1 (Nat.lt_of_le_of_ne sent.2 other) (same.trans noted).symm
  · intro maxLevels bufs filled
    rw [log.wire]
    apply List.map_congr_left
    intro g member
    exact (filled g member).datagram

/-- An image that goes out while the matcher fills another, which it leaves behind. -/
theorem sends_fresh_images_ended : ∃ (s : SnapshotSender) (generations : List Nat), s.phase = .done false ∧
    s.udp.wire = generations.map (fun g => datagramOf (s.pool.image g)) ∧ generations.Pairwise (· < ·) ∧
    generations.getLast? = some 2 ∧ feedSeq (s.pool.image 2) = 9 := by
  have ran : (Transition.run (step 3)
      ([.matcher .reserve, .matcher .examine, .matcher (.write 2 7), .matcher .publish, .poll, .claim, .claim, .claim, .check,
          .size] ++
        List.replicate 8 .copy ++ [.matcher .reserve, .matcher .examine, .answer (.took 64), .matcher .examine,
          .matcher (.write 2 9), .stamp, .release, .matcher .publish, .finish, .poll, .claim, .claim, .claim, .check, .size] ++
        List.replicate 8 .copy ++ [.answer (.took 64), .stamp, .release])
      (create fun _ => 0)).map (fun s => decide (s.phase = .done false ∧ s.pool.generation = 2 ∧ feedSeq (s.pool.image 1) = 7 ∧
        feedSeq (s.pool.image 2) = 9)) = some true := by
    decide +kernel
  rcases Option.map_eq_some_iff.mp ran with ⟨s, path, facts⟩
  rcases of_decide_eq_true facts with ⟨ended, two, seven, nine⟩
  rcases sends_fresh_images (by decide) (Transition.Reachable.start.run path) with ⟨generations, wire, sorted, -, -, final, -⟩
  rw [two, nine] at final
  rcases final ended (by decide) (by decide) with ⟨g, last, -, newest⟩
  have single : ∀ g', 1 ≤ g' → g' < 2 → feedSeq (s.pool.image g') ≠ 9 := by
    intro g' low high
    obtain rfl : g' = 1 := by omega
    rw [seven]
    decide
  rw [newest single] at last
  exact ⟨s, generations, ended, wire, sorted, last, nine⟩

end SnapshotSender

end Titan
