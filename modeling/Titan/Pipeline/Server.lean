import Titan.Book.Feed
import Titan.Pipeline.Recovery
import Titan.Pipeline.RingCalls

namespace Titan

open Journaler PinNode Transition

/-- The constants of the server, with what its static assertions and the size of the mapping
    guarantee. -/
structure ServerConfig where
  mpscSize : Nat
  ingressSize : Nat
  egressSize : Nat
  walCapacity : Nat
  flushInterval : Nat
  syncEvery : Nat
  pg : Nat
  maxNodes : Nat
  idCapacity : Nat
  levelCapacity : Nat
  hwm : Nat
  pubHwm : Nat
  mpscPower : ∃ k, mpscSize = 2 ^ k
  mpscWide : 2 ≤ mpscSize
  ingressPower : ∃ k, ingressSize = 2 ^ k
  egressPower : ∃ k, egressSize = 2 ^ k
  walFits : HEADER_BYTES + walCapacity * ORDER_BYTES < 2 ^ 64

namespace Server

/-- A gateway is between two orders, or pushes one, or its `run` has returned. -/
inductive Gateway
  | running
  | pushing (o : Order)
  | stopped
  deriving DecidableEq

/-- `Sequencer::run`: `check` to `loadDequeue` are the condition of its loop, `journal` and `push`
    the call of `publish` in the handler. -/
inductive SequencerPc
  | check
  | loadEnqueue
  | loadDequeue (e : Nat)
  | drain
  | journal (o : Order)
  | push (o : Order)
  | flush
  | done
  | exited
  deriving DecidableEq

/-- The matcher thread: `submit`, `emit` and `publish` are its handler, with the events that the
    sink has not got yet, and `flush` and `flushing` are `sink.flush()`. -/
inductive MatcherPc
  | check
  | loadCursor
  | loadNext (c : Nat)
  | drain
  | submit (o : Order)
  | emit (rest : List TradeEvent)
  | publish (rest : List TradeEvent)
  | flush
  | flushing
  | done
  | exited
  deriving DecidableEq

inductive PublisherPc
  | check
  | loadCursor
  | loadNext (c : Nat)
  | drain
  | flush
  | last
  | exited
  deriving DecidableEq

inductive Action (n : Nat)
  | push (i : Fin n) (o : Order)
  | gateway (i : Fin n) (spurious : Bool)
  | stop (i : Fin n)
  | join
  | sequencer
  | matcher
  | publisher

end Server

open Server

/-- The server with `n` gateways, without the snapshot thread. `buf` is the sink of the matcher and `batch` the buffer of the
    publisher. The last four members are history: the orders each gateway was given to push,
    those the matcher was given, the events it emitted, and the batches handed to `publish`. -/
structure Server (n : Nat) where
  mpsc : MpscRing (Fin n) Order
  ingress : SpscRing Order
  egress : SpscRing TradeEvent
  seq : Sequencer
  book : OrderBook
  buf : List TradeEvent
  batch : List TradeEvent
  gatewayStopped : Bool
  sequencerDone : Bool
  matcherDone : Bool
  gateways : Fin n → Gateway
  sequencer : SequencerPc
  matcher : MatcherPc
  publisher : PublisherPc
  pushed : Fin n → List Order
  submitted : List Order
  emitted : List TradeEvent
  batches : List (List TradeEvent)

namespace Server

variable {n : Nat}

def create (n : Nat) (cfg : ServerConfig) : Server n where
  mpsc := MpscRing.create default
  ingress := SpscRing.create default
  egress := SpscRing.create
    { takerId := 0, makerId := 0, price := 0, feedSeq := 0, quantity := 0, takerSide := 0, status := 0 }
  seq := Sequencer.create (Journaler.create cfg.walCapacity) cfg.flushInterval cfg.syncEvery
  book := OrderBook.create cfg.maxNodes cfg.idCapacity cfg.levelCapacity
  buf := []
  batch := []
  gatewayStopped := false
  sequencerDone := false
  matcherDone := false
  gateways := fun _ => .running
  sequencer := .check
  matcher := .check
  publisher := .check
  pushed := fun _ => []
  submitted := []
  emitted := []
  batches := []

def startPush (s : Server n) (i : Fin n) (o : Order) : Option (Server n) :=
  match s.gateways i with
  | .running =>
    some { s with
      gateways := Function.update s.gateways i (.pushing o)
      pushed := Function.update s.pushed i (s.pushed i ++ [o]) }
  | _ => none

def stepGateway (cfg : ServerConfig) (s : Server n) (i : Fin n) (spurious : Bool) : Option (Server n) :=
  match s.gateways i with
  | .pushing o =>
    match s.mpsc.producers i with
    | .idle => (MpscRing.step cfg.mpscSize (.tryPublish i o) s.mpsc).map fun r => { s with mpsc := r.1 }
    | _ =>
      (MpscRing.step cfg.mpscSize (.producer i spurious) s.mpsc).map fun r =>
        match r.2 with
        | .published true => { s with mpsc := r.1, gateways := Function.update s.gateways i .running }
        | _ => { s with mpsc := r.1 }
  | _ => none

def stopGateway (s : Server n) (i : Fin n) : Option (Server n) :=
  match s.gateways i with
  | .running => some { s with gateways := Function.update s.gateways i .stopped }
  | _ => none

def joinGateways (s : Server n) : Option (Server n) :=
  if ∀ i, s.gateways i = .stopped then some { s with gatewayStopped := true } else none

def drainMpsc (cfg : ServerConfig) (s : Server n) : Option (Server n) :=
  (MpscRing.step cfg.mpscSize .consumeBatch s.mpsc).map fun r => { s with mpsc := r.1, sequencer := .drain }

def stepSequencer (cfg : ServerConfig) (s : Server n) : Option (Server n) :=
  match s.sequencer with
  | .check => if s.gatewayStopped then some { s with sequencer := .loadEnqueue } else s.drainMpsc cfg
  | .loadEnqueue => some { s with sequencer := .loadDequeue s.mpsc.enqueue }
  | .loadDequeue e => if e = s.mpsc.dequeue then some { s with sequencer := .flush } else s.drainMpsc cfg
  | .drain =>
    (MpscRing.step cfg.mpscSize .consumer s.mpsc).map fun r =>
      match r.2 with
      | .seen o => { s with mpsc := r.1, sequencer := .journal o }
      | .drained _ => { s with mpsc := r.1, sequencer := .check }
      | _ => { s with mpsc := r.1 }
  | .journal o =>
    match s.seq.journalOrder o with
    | .ok (seq, stamped) => some { s with seq := seq, sequencer := .push stamped }
    | .error _ => none
  | .push o =>
    match s.ingress.producer with
    | .idle => (SpscRing.step cfg.ingressSize (.tryPublish o) s.ingress).map fun r => { s with ingress := r.1 }
    | _ =>
      (SpscRing.step cfg.ingressSize .producer s.ingress).map fun r =>
        match r.2 with
        | .published true =>
          { s with
            ingress := r.1
            seq := (({ s.seq with ingress := s.seq.ingress ++ [o] } : Sequencer).cadence cfg.pg).1
            sequencer := .drain }
        | _ => { s with ingress := r.1 }
  | .flush => some { s with seq := { s.seq with journal := s.seq.journal.flushSync cfg.pg }, sequencer := .done }
  | .done => some { s with sequencerDone := true, sequencer := .exited }
  | .exited => none

def drainIngress (cfg : ServerConfig) (s : Server n) : Option (Server n) :=
  (SpscRing.step cfg.ingressSize .consumeBatch s.ingress).map fun r => { s with ingress := r.1, matcher := .drain }

def publishBuf (cfg : ServerConfig) (s : Server n) (pc : MatcherPc) : Option (Server n) :=
  (SpscRing.step cfg.egressSize (.publishBatch s.buf) s.egress).map fun r => { s with egress := r.1, matcher := pc }

def stepPublish (cfg : ServerConfig) (s : Server n) (pc : MatcherPc) : Option (Server n) :=
  (SpscRing.step cfg.egressSize .producer s.egress).map fun r =>
    match r.2 with
    | .batchPublished => { s with egress := r.1, buf := [], matcher := pc }
    | _ => { s with egress := r.1 }

def stepMatcher (cfg : ServerConfig) (s : Server n) : Option (Server n) :=
  match s.matcher with
  | .check => if s.sequencerDone then some { s with matcher := .loadCursor } else s.drainIngress cfg
  | .loadCursor => some { s with matcher := .loadNext s.ingress.cursor }
  | .loadNext c => if c = s.ingress.next then some { s with matcher := .done } else s.drainIngress cfg
  | .drain =>
    (SpscRing.step cfg.ingressSize .consumer s.ingress).map fun r =>
      match r.2 with
      | .seen o => { s with ingress := r.1, matcher := .submit o }
      | .drained _ => { s with ingress := r.1, matcher := .flush }
      | _ => { s with ingress := r.1 }
  | .submit o =>
    (Matcher.submit s.book o).map fun r =>
      { s with book := r.1, submitted := s.submitted ++ [o], emitted := s.emitted ++ r.2.1, matcher := .emit r.2.1 }
  | .emit [] => some { s with matcher := .drain }
  | .emit (event :: rest) =>
    let s := { s with buf := s.buf ++ [event] }
    if s.buf.length ≥ cfg.hwm then s.publishBuf cfg (.publish rest) else some { s with matcher := .emit rest }
  | .publish rest => s.stepPublish cfg (.emit rest)
  | .flush => if s.buf ≠ [] then s.publishBuf cfg .flushing else some { s with matcher := .check }
  | .flushing => s.stepPublish cfg .check
  | .done => some { s with matcherDone := true, matcher := .exited }
  | .exited => none

def drainEgress (cfg : ServerConfig) (s : Server n) : Option (Server n) :=
  (SpscRing.step cfg.egressSize .consumeBatch s.egress).map fun r => { s with egress := r.1, publisher := .drain }

/-- The lambda `flush` of the publisher. -/
def flushBatch (s : Server n) : Server n :=
  if s.batch ≠ [] then { s with batches := s.batches ++ [s.batch], batch := [] } else s

def stepPublisher (cfg : ServerConfig) (s : Server n) : Option (Server n) :=
  match s.publisher with
  | .check => if s.matcherDone then some { s with publisher := .loadCursor } else s.drainEgress cfg
  | .loadCursor => some { s with publisher := .loadNext s.egress.cursor }
  | .loadNext c => if c = s.egress.next then some { s with publisher := .last } else s.drainEgress cfg
  | .drain =>
    (SpscRing.step cfg.egressSize .consumer s.egress).map fun r =>
      match r.2 with
      | .seen event =>
        let s := { s with egress := r.1, batch := s.batch ++ [event] }
        if s.batch.length ≥ cfg.pubHwm then s.flushBatch else s
      | .drained _ => { s with egress := r.1, publisher := .flush }
      | _ => { s with egress := r.1 }
  | .flush => some { s.flushBatch with publisher := .check }
  | .last => some { s.flushBatch with publisher := .exited }
  | .exited => none

/-- The steps of all threads, one access to a ring or a flag each. -/
def step (cfg : ServerConfig) (a : Action n) (s : Server n) : Option (Server n × Unit) :=
  let next :=
    match a with
    | .push i o => s.startPush i o
    | .gateway i spurious => s.stepGateway cfg i spurious
    | .stop i => s.stopGateway i
    | .join => s.joinGateways
    | .sequencer => s.stepSequencer cfg
    | .matcher => s.stepMatcher cfg
    | .publisher => s.stepPublisher cfg
  next.map fun s => (s, ())

def wal (s : Server n) : List Order := (List.range s.seq.journal.count.toNat).map (record s.seq.journal.file)

/-- Every thread but that of the snapshots has returned. -/
def Exited (s : Server n) : Prop :=
  (∀ i, s.gateways i = .stopped) ∧ s.sequencer = .exited ∧ s.matcher = .exited ∧ s.publisher = .exited

instance (s : Server n) : Decidable s.Exited :=
  inferInstanceAs (Decidable ((∀ i, s.gateways i = .stopped) ∧ s.sequencer = .exited ∧ s.matcher = .exited ∧
    s.publisher = .exited))

end Server

end Titan
