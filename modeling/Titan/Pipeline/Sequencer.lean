import Titan.Io.Journaler

namespace Titan

/-- `ingress` lists the orders handed to the ring, in order. -/
structure Sequencer where
  journal : Journaler
  ingress : List Order
  nextSeq : Seq
  flushInterval : Nat
  syncEvery : Nat
  sinceFlush : Nat
  flushNo : Nat

namespace Sequencer

inductive Flush
  | none
  | async
  | sync
  deriving DecidableEq, Repr

def create (journal : Journaler) (flushInterval syncEvery : Nat) : Sequencer where
  journal := journal
  ingress := []
  nextSeq := 0
  flushInterval := if flushInterval ≠ 0 then flushInterval else 1
  syncEvery := syncEvery
  sinceFlush := 0
  flushNo := 0

def journalOrder (s : Sequencer) (o : Order) : Except String (Sequencer × Order) := do
  let stamped := { o with seq := s.nextSeq }
  let journal ← s.journal.append stamped
  return ({ s with journal := journal, nextSeq := s.nextSeq + 1 }, stamped)

def cadence (pg : Nat) (s : Sequencer) : Sequencer × Flush :=
  let s := { s with sinceFlush := s.sinceFlush + 1 }
  if s.sinceFlush ≥ s.flushInterval then
    let s := { s with sinceFlush := 0 }
    if s.syncEvery ≠ 0 then
      let s := { s with flushNo := s.flushNo + 1 }
      if s.flushNo % s.syncEvery = 0 then ({ s with journal := s.journal.flushSync pg }, .sync)
      else ({ s with journal := s.journal.flushAsync pg }, .async)
    else ({ s with journal := s.journal.flushAsync pg }, .async)
  else (s, .none)

/-- The spin on a full ring has ended when the order is on `ingress`. -/
def publish (pg : Nat) (s : Sequencer) (o : Order) : Except String (Sequencer × Flush) := do
  let (s, stamped) ← s.journalOrder o
  let s := { s with ingress := s.ingress ++ [stamped] }
  return s.cadence pg

def publishAll (pg : Nat) (s : Sequencer) : List Order → Except String Sequencer
  | [] => .ok s
  | o :: rest => do
    let (s, _) ← s.publish pg o
    s.publishAll pg rest

def replayLoop {σ : Type} (submit : σ → Order → σ) (file : Nat → UInt64) (base : Seq) : Nat → Nat → σ → σ × Nat
  | 0, i, matcher => (matcher, i)
  | n + 1, i, matcher =>
    let o := Journaler.record file i
    if o.seq ≠ base + UInt64.ofNat i then (matcher, i)
    else replayLoop submit file base n (i + 1) (submit matcher o)

def replay {σ : Type} (submit : σ → Order → σ) (wal : Journaler) (matcher : σ) : σ × Nat :=
  if wal.count = 0 then (matcher, 0)
  else replayLoop submit wal.file (Journaler.record wal.file 0).seq wal.count.toNat 0 matcher

end Sequencer

end Titan
