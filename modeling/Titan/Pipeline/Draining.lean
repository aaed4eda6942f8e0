import Titan.Pipeline.RingProgress
import Titan.Pipeline.ServerRuns
import Mathlib.Algebra.BigOperators.Fin
import Mathlib.Algebra.Order.BigOperators.Group.Finset

namespace Titan

open Journaler Sequencer PinNode Transition

namespace SpscRing

variable {T : Type} {s s' t : SpscRing T}

theorem ProducerKept.refl (s : SpscRing T) : ProducerKept s s := ⟨rfl, rfl, rfl, rfl⟩

theorem ProducerKept.trans (first : ProducerKept s s') (second : ProducerKept s' t) : ProducerKept s t :=
  ⟨second.producer.trans first.producer, second.calls.trans first.calls, second.sent.trans first.sent,
    second.cursor.trans first.cursor⟩

end SpscRing

namespace Server

variable {n : Nat} {cfg : ServerConfig} {s t u : Server n} {P : Server n → Prop}

theorem leads_publisher (taken : s.stepPublisher cfg = some t) (later : Leads (step cfg) t P) : Leads (step cfg) s P :=
  .next (a := .publisher) (e := ()) (by simp only [step, taken, Option.map_some]) later

theorem leads_matcher (taken : s.stepMatcher cfg = some t) (later : Leads (step cfg) t P) : Leads (step cfg) s P :=
  .next (a := .matcher) (e := ()) (by simp only [step, taken, Option.map_some]) later

theorem leads_sequencer (taken : s.stepSequencer cfg = some t) (later : Leads (step cfg) t P) : Leads (step cfg) s P :=
  .next (a := .sequencer) (e := ()) (by simp only [step, taken, Option.map_some]) later

section Publisher

def PublisherMoved (s t : Server n) : Prop :=
  ∃ egress batch batches publisher, t = { s with egress := egress, batch := batch, batches := batches, publisher := publisher } ∧
    SpscRing.ProducerKept s.egress egress

theorem PublisherMoved.refl (s : Server n) : PublisherMoved s s := ⟨_, _, _, _, rfl, .refl _⟩

theorem PublisherMoved.trans (first : PublisherMoved s t) (second : PublisherMoved t u) : PublisherMoved s u := by
  rcases first with ⟨_, _, _, _, rfl, kept⟩
  rcases second with ⟨_, _, _, _, rfl, kept'⟩
  exact ⟨_, _, _, _, rfl, kept.trans kept'⟩

theorem flushBatch_moved (s : Server n) (pc : PublisherPc) : PublisherMoved s { s.flushBatch with publisher := pc } := by
  rcases flushBatch_eq s with ⟨batches, flushed, -⟩
  rw [flushed]
  exact ⟨_, _, _, _, rfl, .refl _⟩

/-- `publisher` is in its loop, and on the way to an empty ring if `full` is asked for. -/
def Draining (full : Prop) (s : Server n) : Prop :=
  match s.publisher with
  | .drain => full → SpscRing.Fresh s.egress
  | .flush | .check => full → s.egress.next = s.egress.cursor
  | _ => False

def publisherLeft (cfg : ServerConfig) (s : Server n) : Nat :=
  match s.publisher with
  | .drain => s.egress.consumer.left cfg.egressSize + 2
  | .flush => 1
  | _ => 0

theorem publisher_step {full : Prop} (inv : Inv cfg s) (draining : Draining full s) (busy : s.publisher ≠ .check) :
    ∃ t, s.stepPublisher cfg = some t ∧ PublisherMoved s t ∧ Draining full t ∧ publisherLeft cfg t < publisherLeft cfg s := by
  have publishing := inv.publishing
  cases here : s.publisher with
  | check => exact absurd here busy
  | loadCursor | loadNext c | last | exited =>
    rw [Draining, here] at draining
    exact draining.elim
  | flush =>
    rw [Draining, here] at draining
    rcases flushBatch_eq s with ⟨batches, flushed, -⟩
    refine ⟨{ s.flushBatch with publisher := .check }, by simp only [stepPublisher, here], flushBatch_moved s .check, ?_, ?_⟩
    · rw [flushed]
      exact draining
    · simp only [publisherLeft, here]
      exact Nat.one_pos
  | drain =>
    rw [Draining, here] at draining
    rw [here] at publishing
    have busy : s.egress.consumer ≠ .idle := by
      intro idle
      have inside := publishing.1
      rw [idle] at inside
      cases inside
    rcases SpscRing.consume_enabled cfg.egressSize busy with ⟨egress, e, called⟩
    have less := SpscRing.consume_left inv.egress called
    rcases SpscRing.consume_batch publishing.1 called with ⟨consumed, kept⟩
    have stepped : SpscRing.step cfg.egressSize .consumer s.egress = some (egress, e) := by
      rw [SpscRing.step]
      exact called
    have fresh : full → egress.consumer = .idle ∧ egress.next = egress.cursor ∨ SpscRing.Fresh egress :=
      fun asked => SpscRing.consume_fresh inv.egress (draining asked) called
    have goes : ∀ (batch : List TradeEvent) (batches : List (List TradeEvent)), egress.consumer.batch = true →
        s.stepPublisher cfg = some { s with egress := egress, batch := batch, batches := batches } →
        ∃ t, s.stepPublisher cfg = some t ∧ PublisherMoved s t ∧ Draining full t ∧
          publisherLeft cfg t < publisherLeft cfg s := by
      intro batch batches inside taken
      refine ⟨_, taken, ⟨_, _, _, _, rfl, kept⟩, ?_, ?_⟩
      · simp only [Draining, here]
        intro asked
        rcases fresh asked with ⟨idle, -⟩ | still
        · rw [idle] at inside
          cases inside
        · exact still
      · simp only [publisherLeft, here]
        exact Nat.add_lt_add_right less 2
    cases consumed with
    | silent inside same => exact goes s.batch s.batches inside (by simp only [stepPublisher, here, stepped, Option.map_some])
    | @seen event inside more =>
      by_cases waits : (s.batch ++ [event]).length ≥ cfg.pubHwm
      · rcases flushBatch_eq { s with egress := egress, batch := s.batch ++ [event] } with ⟨batches, flushed, -⟩
        apply goes [] batches inside
        simp only [stepPublisher, here, stepped, Option.map_some, if_pos waits]
        rw [here] at flushed
        rw [flushed]
      · apply goes (s.batch ++ [event]) s.batches inside
        simp only [stepPublisher, here, stepped, Option.map_some, if_neg waits]
    | drained idle same =>
      refine ⟨{ s with egress := egress, publisher := .flush }, by simp only [stepPublisher, here, stepped, Option.map_some],
        ⟨_, _, _, _, rfl, kept⟩, ?_, ?_⟩
      · intro asked
        rcases fresh asked with ⟨-, level⟩ | still
        · exact level
        · rw [SpscRing.Fresh, idle] at still
          exact still.elim
      · simp only [publisherLeft, here]
        omega

theorem publisher_returns (full : Prop) (inv : Inv cfg s) (draining : Draining full s) :
    Leads (step cfg) s fun t => Inv cfg t ∧ PublisherMoved s t ∧ t.publisher = .check ∧ (full → t.egress.next = t.egress.cursor) := by
  apply Leads.variant (I := fun t => Inv cfg t ∧ PublisherMoved s t ∧ Draining full t) (publisherLeft cfg)
  · rintro t ⟨inv, moved, draining⟩
    by_cases back : t.publisher = .check
    · rw [Draining, back] at draining
      exact .here (.inl ⟨inv, moved, back, draining⟩)
    · rcases publisher_step inv draining back with ⟨u, taken, moved', draining', less⟩
      exact leads_publisher taken (.here (.inr ⟨⟨stepPublisher_inv inv taken, moved.trans moved', draining'⟩, less⟩))
  · exact ⟨inv, .refl s, draining⟩

theorem publisher_checks (inv : Inv cfg s) (open_ : s.matcherDone = false) :
    Leads (step cfg) s fun t => Inv cfg t ∧ PublisherMoved s t ∧ t.publisher = .check := by
  have publishing := inv.publishing
  have looping : Draining False s := by
    rw [Draining]
    rw [open_] at publishing
    cases here : s.publisher <;> rw [here] at publishing <;> simp [Publishing] at publishing ⊢
  exact (publisher_returns False inv looping).mono fun t reached => ⟨reached.1, reached.2.1, reached.2.2.1⟩

theorem publisher_drains_check (inv : Inv cfg s) (here : s.publisher = .check) (open_ : s.matcherDone = false) :
    Leads (step cfg) s fun t => Inv cfg t ∧ PublisherMoved s t ∧ t.publisher = .check ∧ t.egress.next = t.egress.cursor := by
  have publishing := inv.publishing
  rw [here] at publishing
  have taken : s.stepPublisher cfg = some { s with egress := { s.egress with consumer := .drain }, publisher := .drain } := by
    simp [stepPublisher, here, open_, drainEgress, SpscRing.step, publishing.1]
  apply leads_publisher taken
  have drain : Draining True { s with egress := { s.egress with consumer := .drain }, publisher := .drain } := fun _ => trivial
  apply (publisher_returns True (stepPublisher_inv inv taken) drain).mono
  rintro t ⟨inv', moved, back, level⟩
  have first : PublisherMoved s { s with egress := { s.egress with consumer := .drain }, publisher := .drain } :=
    ⟨_, _, _, _, rfl, rfl, rfl, rfl, rfl⟩
  exact ⟨inv', first.trans moved, back, level trivial⟩

theorem publisher_drains (inv : Inv cfg s) (open_ : s.matcherDone = false) :
    Leads (step cfg) s fun t => Inv cfg t ∧ PublisherMoved s t ∧ t.egress.next = t.egress.cursor := by
  apply (publisher_checks inv open_).trans
  rintro t ⟨inv', moved, back⟩
  have still : t.matcherDone = false := by
    rcases moved with ⟨_, _, _, _, rfl, -⟩
    exact open_
  apply (publisher_drains_check inv' back still).mono
  rintro u ⟨inv'', moved', -, level⟩
  exact ⟨inv'', moved.trans moved', level⟩

end Publisher

section Matcher

def EgressMoved (s t : Server n) : Prop :=
  ∃ egress buf batch batches matcher publisher,
    t = { s with egress := egress, buf := buf, batch := batch, batches := batches, matcher := matcher, publisher := publisher }

theorem EgressMoved.refl (s : Server n) : EgressMoved s s := ⟨_, _, _, _, _, _, rfl⟩

theorem EgressMoved.trans (first : EgressMoved s t) (second : EgressMoved t u) : EgressMoved s u := by
  rcases first with ⟨_, _, _, _, _, _, rfl⟩
  rcases second with ⟨_, _, _, _, _, _, rfl⟩
  exact ⟨_, _, _, _, _, _, rfl⟩

theorem PublisherMoved.egressMoved (moved : PublisherMoved s t) : EgressMoved s t := by
  rcases moved with ⟨_, _, _, _, rfl, -⟩
  exact ⟨_, _, _, _, _, _, rfl⟩

theorem Inv.matcher_open (inv : Inv cfg s) (active : s.matcher ≠ .exited) : s.matcherDone = false := by
  cases set : s.matcherDone with
  | false => rfl
  | true => exact absurd (inv.matched set) active

theorem pow_pos_size {size : Nat} (power : ∃ k, size = 2 ^ k) : 0 < size := by
  rcases power with ⟨k, rfl⟩
  exact Nat.two_pow_pos k

theorem publish_step (next : MatcherPc) (inv : Inv cfg s) (call : s.egress.producer.call = some (s.buf, true))
    (level : s.egress.next = s.egress.cursor) :
    ∃ t, s.stepPublish cfg next = some t ∧ EgressMoved s t ∧
      (t.matcher = next ∨ t.matcher = s.matcher ∧ t.egress.producer.left < s.egress.producer.left) := by
  have positive := pow_pos_size cfg.egressPower
  have busy : s.egress.producer ≠ .idle := by
    intro idle
    rw [idle] at call
    cases call
  rcases SpscRing.produce_left inv.egress (by omega) busy with ⟨egress, e, called, less, -⟩
  rcases SpscRing.produce_calls called with ⟨produced, -⟩
  rw [stepPublish, SpscRing.step, called, Option.map_some]
  cases produced with
  | underway returns batched same calls =>
    cases e with
    | batchPublished => exact absurd rfl batched
    | _ => exact ⟨_, rfl, ⟨_, _, _, _, _, _, rfl⟩, .inr ⟨rfl, less⟩⟩
  | refused single | published single =>
    rw [call] at single
    exact absurd (Prod.mk.inj (Option.some.inj single)).2 (by decide)
  | batched => exact ⟨_, rfl, ⟨_, _, _, _, _, _, rfl⟩, .inl rfl⟩

theorem publish_completes {pc next : MatcherPc} (inv : Inv cfg s) (here : s.matcher = pc) (active : pc ≠ .exited)
    (publishes : ∀ t : Server n, t.matcher = pc → t.stepMatcher cfg = t.stepPublish cfg next)
    (calling : ∀ t : Server n, Inv cfg t → t.matcher = pc → t.egress.producer.call = some (t.buf, true)) :
    Leads (step cfg) s fun t => Inv cfg t ∧ EgressMoved s t ∧ t.matcher = next := by
  apply Leads.variant (I := fun t => Inv cfg t ∧ EgressMoved s t ∧ t.matcher = pc) fun t => t.egress.producer.left
  · rintro t ⟨inv, moved, here⟩
    have open_ := inv.matcher_open (by rw [here]; exact active)
    apply (publisher_drains inv open_).trans
    rintro u ⟨inv', moved', level⟩
    have whole := moved.trans moved'.egressMoved
    have same : u.matcher = pc ∧ u.egress.producer = t.egress.producer := by
      rcases moved' with ⟨_, _, _, _, rfl, kept⟩
      exact ⟨here, kept.producer⟩
    rcases publish_step next inv' (calling u inv' same.1) level with ⟨v, taken, last, progress⟩
    rw [← publishes u same.1] at taken
    apply leads_matcher taken
    have inv'' := stepMatcher_inv inv' taken
    rcases progress with done | ⟨still, less⟩
    · exact .here (.inl ⟨inv'', whole.trans last, done⟩)
    · rw [same.2] at less
      exact .here (.inr ⟨⟨inv'', whole.trans last, still.trans same.1⟩, less⟩)
  · exact ⟨inv, .refl s, here⟩

theorem publish_leads {rest : List TradeEvent} (inv : Inv cfg s) (here : s.matcher = .publish rest) :
    Leads (step cfg) s fun t => Inv cfg t ∧ EgressMoved s t ∧ t.matcher = .emit rest := by
  apply publish_completes inv here (by simp)
  · intro t here
    simp only [stepMatcher, here]
  · intro t inv here
    have matching := inv.matching
    rw [here] at matching
    exact matching.2.2.1

theorem flushing_leads (inv : Inv cfg s) (here : s.matcher = .flushing) :
    Leads (step cfg) s fun t => Inv cfg t ∧ EgressMoved s t ∧ t.matcher = .check := by
  apply publish_completes inv here (by simp)
  · intro t here
    simp only [stepMatcher, here]
  · intro t inv here
    have matching := inv.matching
    rw [here] at matching
    exact matching.2.2.1

theorem flush_leads (inv : Inv cfg s) (here : s.matcher = .flush) :
    Leads (step cfg) s fun t => Inv cfg t ∧ EgressMoved s t ∧ t.matcher = .check := by
  have matching := inv.matching
  rw [here] at matching
  rcases matching with ⟨-, -, idle, -⟩
  by_cases held : s.buf ≠ []
  · have taken : s.stepMatcher cfg = some { s with egress := { s.egress with producer := .batch s.buf 0 }, matcher := .flushing } := by
      simp only [stepMatcher, here, if_pos held, publishBuf, SpscRing.step, idle, Option.map_some]
    apply leads_matcher taken
    apply (flushing_leads (stepMatcher_inv inv taken) rfl).mono
    rintro t ⟨inv', moved, back⟩
    exact ⟨inv', EgressMoved.trans ⟨_, _, _, _, _, _, rfl⟩ moved, back⟩
  · have taken : s.stepMatcher cfg = some { s with matcher := .check } := by
      simp only [stepMatcher, here, if_neg held]
    exact leads_matcher taken (.here ⟨stepMatcher_inv inv taken, ⟨_, _, _, _, _, _, rfl⟩, rfl⟩)

theorem emit_leads {rest : List TradeEvent} (inv : Inv cfg s) (here : s.matcher = .emit rest) :
    Leads (step cfg) s fun t => Inv cfg t ∧ EgressMoved s t ∧ t.matcher = .drain := by
  induction rest generalizing s with
  | nil =>
    have taken : s.stepMatcher cfg = some { s with matcher := .drain } := by
      simp only [stepMatcher, here]
    exact leads_matcher taken (.here ⟨stepMatcher_inv inv taken, ⟨_, _, _, _, _, _, rfl⟩, rfl⟩)
  | cons event rest ih =>
    have matching := inv.matching
    rw [here] at matching
    rcases matching with ⟨-, -, idle, -⟩
    -- the event is in the sink, which may be full now
    have onward : ∀ t, Inv cfg t → EgressMoved s t → t.matcher = .emit rest →
        Leads (step cfg) t fun u => Inv cfg u ∧ EgressMoved s u ∧ u.matcher = .drain := by
      intro t inv' moved there
      apply (ih inv' there).mono
      rintro u ⟨inv'', moved', back⟩
      exact ⟨inv'', moved.trans moved', back⟩
    by_cases full : (s.buf ++ [event]).length ≥ cfg.hwm
    · have taken : s.stepMatcher cfg = some { s with
          buf := s.buf ++ [event]
          egress := { s.egress with producer := .batch (s.buf ++ [event]) 0 }
          matcher := .publish rest } := by
        simp only [stepMatcher, here, if_pos full, publishBuf, SpscRing.step, idle, Option.map_some]
      apply leads_matcher taken
      apply (publish_leads (stepMatcher_inv inv taken) rfl).trans
      rintro t ⟨inv', moved, there⟩
      exact onward t inv' (EgressMoved.trans ⟨_, _, _, _, _, _, rfl⟩ moved) there
    · have taken : s.stepMatcher cfg = some { s with buf := s.buf ++ [event], matcher := .emit rest } := by
        simp only [stepMatcher, here, if_neg full]
      exact leads_matcher taken (onward _ (stepMatcher_inv inv taken) ⟨_, _, _, _, _, _, rfl⟩ rfl)

def MatcherMoved (s t : Server n) : Prop :=
  ∃ ingress egress book buf batch batches matcher publisher submitted emitted,
    t = { s with
      ingress := ingress, egress := egress, book := book, buf := buf, batch := batch, batches := batches, matcher := matcher
      publisher := publisher, submitted := submitted, emitted := emitted } ∧
    SpscRing.ProducerKept s.ingress ingress

theorem MatcherMoved.trans (first : MatcherMoved s t) (second : MatcherMoved t u) : MatcherMoved s u := by
  rcases first with ⟨_, _, _, _, _, _, _, _, _, _, rfl, kept⟩
  rcases second with ⟨_, _, _, _, _, _, _, _, _, _, rfl, kept'⟩
  exact ⟨_, _, _, _, _, _, _, _, _, _, rfl, kept.trans kept'⟩

theorem EgressMoved.matcherMoved (moved : EgressMoved s t) : MatcherMoved s t := by
  rcases moved with ⟨_, _, _, _, _, _, rfl⟩
  exact ⟨_, _, _, _, _, _, _, _, _, _, rfl, .refl _⟩

theorem EgressMoved.ingress_eq (moved : EgressMoved s t) : t.ingress = s.ingress := by
  rcases moved with ⟨_, _, _, _, _, _, rfl⟩
  rfl

theorem submit_leads {o : Order} (small : cfg.maxNodes * CAPACITY < 2 ^ 32) (inv : Inv cfg s) (here : s.matcher = .submit o) :
    Leads (step cfg) s fun t => Inv cfg t ∧ MatcherMoved s t ∧ t.ingress = s.ingress ∧ t.matcher = .drain := by
  have start := OrderBook.create_refines small cfg.idCapacity cfg.levelCapacity
  rcases Matcher.submitAll_spec s.submitted start with ⟨b, events, book, ladders, run, -, refined, -⟩
  rw [inv.run] at run
  cases run
  rcases Matcher.submit_step refined o with ⟨b, -, answer, -, call, -, -⟩
  have stepped : s.stepMatcher cfg = some { s with
      book := b, submitted := s.submitted ++ [o], emitted := s.emitted ++ answer.events, matcher := .emit answer.events } := by
    simp only [stepMatcher, here, call, Option.map_some]
  apply leads_matcher stepped
  apply (emit_leads (stepMatcher_inv inv stepped) rfl).mono
  rintro t ⟨inv', moved, back⟩
  exact ⟨inv', MatcherMoved.trans ⟨_, _, _, _, _, _, _, _, _, _, rfl, .refl _⟩ moved.matcherMoved, moved.ingress_eq, back⟩

theorem take_leads {full : Prop} (small : cfg.maxNodes * CAPACITY < 2 ^ 32) (inv : Inv cfg s) (here : s.matcher = .drain)
    (fresh : full → SpscRing.Fresh s.ingress) :
    Leads (step cfg) s fun t => Inv cfg t ∧ MatcherMoved s t ∧
      (t.matcher = .flush ∧ (full → t.ingress.next = t.ingress.cursor) ∨
        t.matcher = .drain ∧ (full → SpscRing.Fresh t.ingress) ∧
          t.ingress.consumer.left cfg.ingressSize < s.ingress.consumer.left cfg.ingressSize) := by
  have matching := inv.matching
  rw [here] at matching
  have busy : s.ingress.consumer ≠ .idle := by
    intro idle
    have inside := matching.1
    rw [idle] at inside
    cases inside
  rcases SpscRing.consume_enabled cfg.ingressSize busy with ⟨ingress, e, called⟩
  have less := SpscRing.consume_left inv.ingress called
  have fresh' : full → ingress.consumer = .idle ∧ ingress.next = ingress.cursor ∨ SpscRing.Fresh ingress :=
    fun asked => SpscRing.consume_fresh inv.ingress (fresh asked) called
  have stepped : SpscRing.step cfg.ingressSize .consumer s.ingress = some (ingress, e) := by
    rw [SpscRing.step]
    exact called
  rcases SpscRing.consume_batch matching.1 called with ⟨consumed, kept⟩
  have inside : ingress.consumer.batch = true → full → SpscRing.Fresh ingress := by
    intro batch asked
    rcases fresh' asked with ⟨idle, -⟩ | still
    · rw [idle] at batch
      cases batch
    · exact still
  cases consumed with
  | silent batch same =>
    have taken : s.stepMatcher cfg = some { s with ingress := ingress } := by
      simp only [stepMatcher, here, stepped, Option.map_some]
    exact leads_matcher taken (.here ⟨stepMatcher_inv inv taken, ⟨_, _, _, _, _, _, _, _, _, _, rfl, kept⟩,
      .inr ⟨here, inside batch, less⟩⟩)
  | @seen o batch more =>
    have taken : s.stepMatcher cfg = some { s with ingress := ingress, matcher := .submit o } := by
      simp only [stepMatcher, here, stepped, Option.map_some]
    apply leads_matcher taken
    apply (submit_leads small (stepMatcher_inv inv taken) rfl).mono
    rintro t ⟨inv', moved, same, back⟩
    refine ⟨inv', MatcherMoved.trans ⟨_, _, _, _, _, _, _, _, _, _, rfl, kept⟩ moved, .inr ⟨back, ?_, ?_⟩⟩
    · rw [same]
      exact inside batch
    · rw [same]
      exact less
  | drained idle same =>
    have taken : s.stepMatcher cfg = some { s with ingress := ingress, matcher := .flush } := by
      simp only [stepMatcher, here, stepped, Option.map_some]
    refine leads_matcher taken (.here ⟨stepMatcher_inv inv taken, ⟨_, _, _, _, _, _, _, _, _, _, rfl, kept⟩, .inl ⟨rfl, ?_⟩⟩)
    intro asked
    rcases fresh' asked with ⟨-, level⟩ | still
    · exact level
    · rw [SpscRing.Fresh, idle] at still
      exact still.elim

theorem drain_leads (full : Prop) (small : cfg.maxNodes * CAPACITY < 2 ^ 32) (inv : Inv cfg s) (here : s.matcher = .drain)
    (fresh : full → SpscRing.Fresh s.ingress) :
    Leads (step cfg) s fun t => Inv cfg t ∧ MatcherMoved s t ∧ t.matcher = .check ∧ (full → t.ingress.next = t.ingress.cursor) := by
  apply Leads.variant (I := fun t => Inv cfg t ∧ MatcherMoved s t ∧ t.matcher = .drain ∧ (full → SpscRing.Fresh t.ingress))
    fun t => t.ingress.consumer.left cfg.ingressSize
  · rintro t ⟨inv, moved, here, fresh⟩
    apply (take_leads small inv here fresh).trans
    rintro u ⟨inv', moved', ⟨flush, level⟩ | ⟨still, fresh', less⟩⟩
    · apply (flush_leads inv' flush).mono
      rintro v ⟨inv'', moved'', back⟩
      rw [← moved''.ingress_eq] at level
      exact .inl ⟨inv'', (moved.trans moved').trans moved''.matcherMoved, back, level⟩
    · exact .here (.inr ⟨⟨inv', moved.trans moved', still, fresh'⟩, less⟩)
  · exact ⟨inv, (EgressMoved.refl s).matcherMoved, here, fresh⟩

def MatcherPc.looping : MatcherPc → Bool
  | .loadCursor | .loadNext _ | .done | .exited => false
  | _ => true

theorem matcher_checks (small : cfg.maxNodes * CAPACITY < 2 ^ 32) (inv : Inv cfg s) (looping : s.matcher.looping = true) :
    Leads (step cfg) s fun t => Inv cfg t ∧ MatcherMoved s t ∧ t.matcher = .check := by
  have drained : ∀ t, Inv cfg t → MatcherMoved s t → t.matcher = .drain →
      Leads (step cfg) t fun u => Inv cfg u ∧ MatcherMoved s u ∧ u.matcher = .check := by
    intro t inv' moved there
    apply (drain_leads False small inv' there False.elim).mono
    rintro u ⟨inv'', moved', back, -⟩
    exact ⟨inv'', moved.trans moved', back⟩
  have emitted : ∀ t rest, Inv cfg t → MatcherMoved s t → t.matcher = .emit rest →
      Leads (step cfg) t fun u => Inv cfg u ∧ MatcherMoved s u ∧ u.matcher = .check := by
    intro t rest inv' moved there
    apply (emit_leads inv' there).trans
    rintro u ⟨inv'', moved', back⟩
    exact drained u inv'' (moved.trans moved'.matcherMoved) back
  have still := (EgressMoved.refl s).matcherMoved
  cases here : s.matcher with
  | check => exact .here ⟨inv, still, here⟩
  | loadCursor | loadNext c | done | exited =>
    rw [here] at looping
    cases looping
  | drain => exact drained s inv still here
  | submit o =>
    apply (submit_leads small inv here).trans
    rintro t ⟨inv', moved, -, back⟩
    exact drained t inv' moved back
  | emit rest => exact emitted s rest inv still here
  | publish rest =>
    apply (publish_leads inv here).trans
    rintro t ⟨inv', moved, back⟩
    exact emitted t rest inv' moved.matcherMoved back
  | flush =>
    apply (flush_leads inv here).mono
    rintro t ⟨inv', moved, back⟩
    exact ⟨inv', moved.matcherMoved, back⟩
  | flushing =>
    apply (flushing_leads inv here).mono
    rintro t ⟨inv', moved, back⟩
    exact ⟨inv', moved.matcherMoved, back⟩

theorem matcher_drains_check (small : cfg.maxNodes * CAPACITY < 2 ^ 32) (inv : Inv cfg s) (here : s.matcher = .check)
    (open_ : s.sequencerDone = false) :
    Leads (step cfg) s fun t => Inv cfg t ∧ MatcherMoved s t ∧ t.ingress.next = t.ingress.cursor := by
  have matching := inv.matching
  rw [here] at matching
  have taken : s.stepMatcher cfg = some { s with ingress := { s.ingress with consumer := .drain }, matcher := .drain } := by
    simp [stepMatcher, here, open_, drainIngress, SpscRing.step, matching.1]
  apply leads_matcher taken
  apply (drain_leads True small (stepMatcher_inv inv taken) rfl fun _ => trivial).mono
  rintro t ⟨inv', moved, -, level⟩
  have first : MatcherMoved s { s with ingress := { s.ingress with consumer := .drain }, matcher := .drain } :=
    ⟨_, _, _, _, _, _, _, _, _, _, rfl, rfl, rfl, rfl, rfl⟩
  exact ⟨inv', first.trans moved, level trivial⟩

/-- Whatever the matcher is doing, it can empty its ring. -/
theorem matcher_drains (small : cfg.maxNodes * CAPACITY < 2 ^ 32) (inv : Inv cfg s) (open_ : s.sequencerDone = false) :
    Leads (step cfg) s fun t => Inv cfg t ∧ MatcherMoved s t ∧ t.ingress.next = t.ingress.cursor := by
  have matching := inv.matching
  rw [open_] at matching
  have looping : s.matcher.looping = true := by
    cases here : s.matcher <;> rw [here] at matching <;> simp [Matching, MatcherPc.looping] at matching ⊢
  apply (matcher_checks small inv looping).trans
  rintro t ⟨inv', moved, back⟩
  have still : t.sequencerDone = false := by
    rcases moved with ⟨_, _, _, _, _, _, _, _, _, _, rfl, -⟩
    exact open_
  apply (matcher_drains_check small inv' back still).mono
  rintro u ⟨inv'', moved', level⟩
  exact ⟨inv'', moved.trans moved', level⟩

end Matcher

section Sequencer

def SequencerMoved (s t : Server n) : Prop :=
  ∃ mpsc ingress egress seq book buf batch batches sequencer matcher publisher submitted emitted,
    t = { s with
      mpsc := mpsc, ingress := ingress, egress := egress, seq := seq, book := book, buf := buf, batch := batch
      batches := batches, sequencer := sequencer, matcher := matcher, publisher := publisher, submitted := submitted
      emitted := emitted } ∧
    MpscRing.ProducersKept s.mpsc mpsc

theorem SequencerMoved.trans (first : SequencerMoved s t) (second : SequencerMoved t u) : SequencerMoved s u := by
  rcases first with ⟨_, _, _, _, _, _, _, _, _, _, _, _, _, rfl, kept⟩
  rcases second with ⟨_, _, _, _, _, _, _, _, _, _, _, _, _, rfl, kept'⟩
  exact ⟨_, _, _, _, _, _, _, _, _, _, _, _, _, rfl, kept'.producers.trans kept.producers, kept'.calls.trans kept.calls,
    kept'.claimed.trans kept.claimed, kept'.enqueue.trans kept.enqueue⟩

theorem MatcherMoved.sequencerMoved (moved : MatcherMoved s t) : SequencerMoved s t := by
  rcases moved with ⟨_, _, _, _, _, _, _, _, _, _, rfl, -⟩
  exact ⟨_, _, _, _, _, _, _, _, _, _, _, _, _, rfl, rfl, rfl, rfl, rfl⟩

theorem SequencerMoved.refl (s : Server n) : SequencerMoved s s := (EgressMoved.refl s).matcherMoved.sequencerMoved

theorem sum_length_filter (claimed : List (Fin n × Order)) :
    ∑ i, (claimed.filter fun c => c.1 = i).length = claimed.length := by
  induction claimed with
  | nil => simp
  | cons c rest ih =>
    have one : ∀ i, ((c :: rest).filter fun c => c.1 = i).length = (rest.filter fun c => c.1 = i).length + if c.1 = i then 1 else 0 := by
      intro i
      rw [List.filter_cons]
      split <;> simp_all
    rw [Finset.sum_congr rfl fun i _ => one i, Finset.sum_add_distrib, ih, Finset.sum_ite_eq, if_pos (Finset.mem_univ _),
      List.length_cons]

theorem Inv.taken_fits (inv : Inv cfg s) : s.mpsc.taken.length ≤ ∑ i, (s.pushed i).length := by
  rcases inv.mpsc.taken_of_items (pow_pos_size cfg.mpscPower) with ⟨k, -, same⟩
  have part : s.mpsc.taken.length ≤ s.mpsc.claimed.length := by
    rw [same, List.length_take, MpscRing.items, List.length_map]
    exact Nat.min_le_right _ _
  apply Nat.le_trans part
  rw [← sum_length_filter]
  apply Finset.sum_le_sum
  intro i _
  have pushed := congrArg List.length (inv.mpsc.pushed i)
  have pushing := inv.pushing i
  rw [List.length_map, List.length_append] at pushed
  rw [pushed]
  cases here : s.gateways i with
  | running | stopped =>
    rw [here] at pushing
    rw [pushing.1, pushing.2]
    exact Nat.le_refl _
  | pushing o =>
    rw [here] at pushing
    rw [pushing.1, List.length_append]
    cases s.mpsc.producers i <;> simp [MpscRing.Producer.inFlight]

theorem Inv.sequencer_open (inv : Inv cfg s) (active : s.sequencer ≠ .exited) : s.sequencerDone = false := by
  cases set : s.sequencerDone with
  | false => rfl
  | true => exact absurd (inv.sequenced set) active

def pushLeft (ingress : SpscRing Order) : Nat :=
  match ingress.producer with
  | .idle => 5
  | pc => pc.left

theorem push_step {o : Order} (inv : Inv cfg s) (here : s.sequencer = .push o) (level : s.ingress.next = s.ingress.cursor) :
    ∃ t, s.stepSequencer cfg = some t ∧ SequencerMoved s t ∧ t.mpsc = s.mpsc ∧
      (t.sequencer = .drain ∨ t.sequencer = .push o ∧ pushLeft t.ingress < pushLeft s.ingress) := by
  have positive := pow_pos_size cfg.ingressPower
  have sequencing := inv.sequencing
  rw [here] at sequencing
  rcases sequencing with ⟨-, -, -, call⟩
  by_cases idle : s.ingress.producer = .idle
  · refine ⟨{ s with ingress := { s.ingress with producer := .publish o } }, ?_,
      ⟨_, _, _, _, _, _, _, _, _, _, _, _, _, rfl, rfl, rfl, rfl, rfl⟩, rfl, .inr ⟨here, ?_⟩⟩
    · simp only [stepSequencer, here, idle, SpscRing.step, Option.map_some]
    · simp only [pushLeft, idle]
      exact Nat.lt_succ_self 4
  · rcases SpscRing.produce_left inv.ingress (by omega) idle with ⟨ingress, e, called, less, accepted⟩
    have stepped : SpscRing.step cfg.ingressSize .producer s.ingress = some (ingress, e) := by
      rw [SpscRing.step]
      exact called
    rcases SpscRing.produce_calls called with ⟨produced, -⟩
    have left : pushLeft s.ingress = s.ingress.producer.left := by
      rw [pushLeft]
      split
      · rename_i none
        exact absurd none idle
      · rfl
    cases produced with
    | underway returns batched same calls =>
      have busy : ingress.producer ≠ .idle := by
        intro none
        rw [none] at same
        cases kind : s.ingress.producer <;> rw [kind] at same <;> first | exact idle kind | cases same
      have left' : pushLeft ingress = ingress.producer.left := by
        rw [pushLeft]
        split
        · rename_i none
          exact absurd none busy
        · rfl
      cases e with
      | published ok => exact absurd rfl (returns ok)
      | _ =>
        have goes : s.stepSequencer cfg = some { s with ingress := ingress } := by
          simp only [stepSequencer, here, stepped, Option.map_some]
        exact ⟨_, goes, ⟨_, _, _, _, _, _, _, _, _, _, _, _, _, rfl, rfl, rfl, rfl, rfl⟩, rfl,
          .inr ⟨here, by rw [left, left']; exact less⟩⟩
    | refused => exact absurd rfl accepted
    | published =>
      have goes : s.stepSequencer cfg =
          some
            { s with
              ingress := ingress
              seq := (({ s.seq with ingress := s.seq.ingress ++ [o] } : Sequencer).cadence cfg.pg).1
              sequencer := .drain } := by
        simp only [stepSequencer, here, stepped, Option.map_some]
      exact ⟨_, goes, ⟨_, _, _, _, _, _, _, _, _, _, _, _, _, rfl, rfl, rfl, rfl, rfl⟩, rfl, .inl rfl⟩
    | batched several =>
      exact absurd (Prod.mk.inj (call _ several)).2 (by decide)

theorem push_leads {o : Order} (small : cfg.maxNodes * CAPACITY < 2 ^ 32) (inv : Inv cfg s) (here : s.sequencer = .push o) :
    Leads (step cfg) s fun t => Inv cfg t ∧ SequencerMoved s t ∧ t.mpsc = s.mpsc ∧ t.sequencer = .drain := by
  apply Leads.variant (I := fun t => Inv cfg t ∧ SequencerMoved s t ∧ t.mpsc = s.mpsc ∧ t.sequencer = .push o)
    fun t => pushLeft t.ingress
  · rintro t ⟨inv, moved, ring, here⟩
    have open_ := inv.sequencer_open (by simp [here])
    apply (matcher_drains small inv open_).trans
    rintro u ⟨inv', moved', level⟩
    have whole := moved.trans moved'.sequencerMoved
    have same : u.sequencer = .push o ∧ u.mpsc = s.mpsc ∧ pushLeft u.ingress = pushLeft t.ingress := by
      rcases moved' with ⟨_, _, _, _, _, _, _, _, _, _, rfl, kept⟩
      exact ⟨here, ring, by simp only [pushLeft, kept.producer]⟩
    rcases push_step inv' same.1 level with ⟨v, taken, last, ring', progress⟩
    have inv'' := stepSequencer_inv inv' taken
    apply leads_sequencer taken
    rcases progress with done | ⟨still, less⟩
    · exact .here (.inl ⟨inv'', whole.trans last, ring'.trans same.2.1, done⟩)
    · rw [same.2.2] at less
      exact .here (.inr ⟨⟨inv'', whole.trans last, ring'.trans same.2.1, still⟩, less⟩)
  · exact ⟨inv, .refl s, rfl, here⟩

theorem journal_leads {o : Order} (small : cfg.maxNodes * CAPACITY < 2 ^ 32) (inv : Inv cfg s)
    (here : s.sequencer = .journal o) (fits : ∑ i, (s.pushed i).length ≤ cfg.walCapacity) :
    Leads (step cfg) s fun t => Inv cfg t ∧ SequencerMoved s t ∧ t.mpsc = s.mpsc ∧ t.sequencer = .drain := by
  have bound := walCapacity_small cfg
  have taken := Nat.le_trans inv.taken_fits fits
  have sequencing := inv.sequencing
  rw [here] at sequencing
  rcases sequencing with ⟨-, before, last, handed⟩
  rw [last, List.length_append, List.length_singleton] at taken
  have room : (stampFrom 0 before).length < s.seq.journal.capacity := by
    rw [stampFrom_length, handed.logged.capacity]
    exact taken
  rcases append_spec handed.logged.count (by rw [stampFrom_length]; omega) room { o with seq := s.seq.nextSeq } with
    ⟨journal, appended, -⟩
  have journaled : s.seq.journalOrder o = .ok ({ s.seq with journal := journal, nextSeq := s.seq.nextSeq + 1 },
      { o with seq := s.seq.nextSeq }) := by
    rw [journalOrder, appended]
    rfl
  have stepped : s.stepSequencer cfg = some { s with
      seq := { s.seq with journal := journal, nextSeq := s.seq.nextSeq + 1 }
      sequencer := .push { o with seq := s.seq.nextSeq } } := by
    simp only [stepSequencer, here, journaled]
  apply leads_sequencer stepped
  apply (push_leads small (stepSequencer_inv inv stepped) rfl).mono
  rintro t ⟨inv', moved, ring, back⟩
  exact ⟨inv', SequencerMoved.trans ⟨_, _, _, _, _, _, _, _, _, _, _, _, _, rfl, rfl, rfl, rfl, rfl⟩ moved, ring, back⟩

def Unclaimed (s : Server n) : Prop := ∀ i, (s.mpsc.producers i).owned = none

theorem SequencerMoved.unclaimed (moved : SequencerMoved s t) (free : Unclaimed s) : Unclaimed t := by
  rcases moved with ⟨_, _, _, _, _, _, _, _, _, _, _, _, _, rfl, kept⟩
  intro i
  simp only [kept.producers]
  exact free i

theorem pull_leads {full : Prop} (small : cfg.maxNodes * CAPACITY < 2 ^ 32) (fits : ∑ i, (s.pushed i).length ≤ cfg.walCapacity)
    (inv : Inv cfg s) (claimed : MpscRing.Claimed cfg.mpscSize s.mpsc) (here : s.sequencer = .drain)
    (free : full → Unclaimed s) (fresh : full → MpscRing.Fresh s.mpsc) :
    Leads (step cfg) s fun t => Inv cfg t ∧ MpscRing.Claimed cfg.mpscSize t.mpsc ∧ SequencerMoved s t ∧
      (t.sequencer = .check ∧ (full → t.mpsc.dequeue = t.mpsc.enqueue) ∨
        t.sequencer = .drain ∧ (full → MpscRing.Fresh t.mpsc) ∧
          t.mpsc.consumer.left t.mpsc.enqueue t.mpsc.dequeue < s.mpsc.consumer.left s.mpsc.enqueue s.mpsc.dequeue) := by
  have sequencing := inv.sequencing
  rw [here] at sequencing
  have busy : s.mpsc.consumer ≠ .idle := by
    intro idle
    have inside := sequencing.1
    rw [idle] at inside
    cases inside
  rcases MpscRing.consume_enabled cfg.mpscSize busy with ⟨mpsc, e, called⟩
  have less := MpscRing.consume_left (pow_pos_size cfg.mpscPower) inv.mpsc sequencing.1 called
  have claimed' := MpscRing.consume_claimed cfg.mpscPower inv.mpsc claimed called
  have fresh' : full → mpsc.consumer = .idle ∧ mpsc.dequeue = mpsc.enqueue ∨ MpscRing.Fresh mpsc := fun asked =>
    MpscRing.consume_fresh cfg.mpscPower inv.mpsc (fun p low high => claimed.ready inv.mpsc (free asked) low high) (fresh asked)
      called
  have stepped : MpscRing.step cfg.mpscSize .consumer s.mpsc = some (mpsc, e) := called
  rcases MpscRing.consume_batch sequencing.1 called with ⟨consumed, kept⟩
  have inside : mpsc.consumer.batch = true → full → MpscRing.Fresh mpsc := by
    intro batch asked
    rcases fresh' asked with ⟨idle, -⟩ | still
    · rw [idle] at batch
      cases batch
    · exact still
  cases consumed with
  | silent batch same =>
    have taken : s.stepSequencer cfg = some { s with mpsc := mpsc } := by
      simp only [stepSequencer, here, stepped, Option.map_some]
    exact leads_sequencer taken (.here ⟨stepSequencer_inv inv taken, claimed',
      ⟨_, _, _, _, _, _, _, _, _, _, _, _, _, rfl, kept⟩, .inr ⟨here, inside batch, less⟩⟩)
  | @seen o batch more =>
    have taken : s.stepSequencer cfg = some { s with mpsc := mpsc, sequencer := .journal o } := by
      simp only [stepSequencer, here, stepped, Option.map_some]
    apply leads_sequencer taken
    apply (journal_leads small (stepSequencer_inv inv taken) rfl fits).mono
    rintro t ⟨inv', moved, same, back⟩
    refine ⟨inv', ?_, SequencerMoved.trans ⟨_, _, _, _, _, _, _, _, _, _, _, _, _, rfl, kept⟩ moved, .inr ⟨back, ?_, ?_⟩⟩
    · rw [same]
      exact claimed'
    · rw [same]
      exact inside batch
    · rw [same]
      exact less
  | drained idle same =>
    have taken : s.stepSequencer cfg = some { s with mpsc := mpsc, sequencer := .check } := by
      simp only [stepSequencer, here, stepped, Option.map_some]
    refine leads_sequencer taken (.here ⟨stepSequencer_inv inv taken, claimed',
      ⟨_, _, _, _, _, _, _, _, _, _, _, _, _, rfl, kept⟩, .inl ⟨rfl, ?_⟩⟩)
    intro asked
    rcases fresh' asked with ⟨-, level⟩ | still
    · exact level
    · rw [MpscRing.Fresh, idle] at still
      cases still

/-- The state of the server with what the ring of the gateways and the log promise. -/
structure Ready (cfg : ServerConfig) (s : Server n) : Prop where
  inv : Inv cfg s
  claimed : MpscRing.Claimed cfg.mpscSize s.mpsc
  fits : ∑ i, (s.pushed i).length ≤ cfg.walCapacity

theorem SequencerMoved.pushed_eq (moved : SequencerMoved s t) : t.pushed = s.pushed := by
  rcases moved with ⟨_, _, _, _, _, _, _, _, _, _, _, _, _, rfl, -⟩
  rfl

theorem sequence_leads (full : Prop) (small : cfg.maxNodes * CAPACITY < 2 ^ 32) (ready : Ready cfg s) (here : s.sequencer = .drain)
    (free : full → Unclaimed s) (fresh : full → MpscRing.Fresh s.mpsc) :
    Leads (step cfg) s fun t => Ready cfg t ∧ SequencerMoved s t ∧ t.sequencer = .check ∧
      (full → t.mpsc.dequeue = t.mpsc.enqueue) := by
  apply Leads.variant (I := fun t => Ready cfg t ∧ SequencerMoved s t ∧ t.sequencer = .drain ∧ (full → MpscRing.Fresh t.mpsc))
    fun t => t.mpsc.consumer.left t.mpsc.enqueue t.mpsc.dequeue
  · rintro t ⟨ready, moved, here, fresh⟩
    apply (pull_leads small ready.fits ready.inv ready.claimed here (fun asked => moved.unclaimed (free asked)) fresh).mono
    rintro u ⟨inv', claimed', moved', progress⟩
    have ready' : Ready cfg u := ⟨inv', claimed', by rw [moved'.pushed_eq]; exact ready.fits⟩
    rcases progress with ⟨back, level⟩ | ⟨still, fresh', less⟩
    · exact .inl ⟨ready', moved.trans moved', back, level⟩
    · exact .inr ⟨⟨ready', moved.trans moved', still, fresh'⟩, less⟩
  · exact ⟨ready, .refl s, here, fresh⟩

def SequencerPc.looping : SequencerPc → Bool
  | .check | .drain | .journal _ | .push _ => true
  | _ => false

theorem sequencer_checks (small : cfg.maxNodes * CAPACITY < 2 ^ 32) (ready : Ready cfg s)
    (looping : s.sequencer.looping = true) :
    Leads (step cfg) s fun t => Ready cfg t ∧ SequencerMoved s t ∧ t.sequencer = .check := by
  have drained : ∀ t, Ready cfg t → SequencerMoved s t → t.sequencer = .drain →
      Leads (step cfg) t fun u => Ready cfg u ∧ SequencerMoved s u ∧ u.sequencer = .check := by
    intro t ready' moved there
    apply (sequence_leads False small ready' there False.elim False.elim).mono
    rintro u ⟨ready'', moved', back, -⟩
    exact ⟨ready'', moved.trans moved', back⟩
  have pushed : ∀ t, Inv cfg t ∧ SequencerMoved s t ∧ t.mpsc = s.mpsc ∧ t.sequencer = .drain →
      Leads (step cfg) t fun u => Ready cfg u ∧ SequencerMoved s u ∧ u.sequencer = .check := by
    rintro t ⟨inv', moved, ring, back⟩
    exact drained t ⟨inv', by rw [ring]; exact ready.claimed, by rw [moved.pushed_eq]; exact ready.fits⟩ moved back
  cases here : s.sequencer with
  | check => exact .here ⟨ready, .refl s, here⟩
  | loadEnqueue | loadDequeue e | flush | done | exited =>
    rw [here] at looping
    cases looping
  | drain => exact drained s ready (.refl s) here
  | journal o => exact (journal_leads small ready.inv here ready.fits).trans pushed
  | push o => exact (push_leads small ready.inv here).trans pushed

/-- Where no gateway holds a claim, the sequencer can empty the ring of the gateways. -/
theorem sequencer_drains (small : cfg.maxNodes * CAPACITY < 2 ^ 32) (ready : Ready cfg s) (free : Unclaimed s)
    (open_ : s.gatewayStopped = false) :
    Leads (step cfg) s fun t => Ready cfg t ∧ SequencerMoved s t ∧ t.sequencer = .check ∧ t.mpsc.dequeue = t.mpsc.enqueue := by
  have sequencing := ready.inv.sequencing
  rw [open_] at sequencing
  have looping : s.sequencer.looping = true := by
    cases here : s.sequencer <;> rw [here] at sequencing <;> simp [Sequencing, SequencerPc.looping] at sequencing ⊢
  apply (sequencer_checks small ready looping).trans
  rintro t ⟨ready', moved, back⟩
  have sequencing' := ready'.inv.sequencing
  rw [back] at sequencing'
  have still : t.gatewayStopped = false := by
    rcases moved with ⟨_, _, _, _, _, _, _, _, _, _, _, _, _, rfl, -⟩
    exact open_
  have taken : t.stepSequencer cfg = some { t with mpsc := { t.mpsc with consumer := .drain }, sequencer := .drain } := by
    simp [stepSequencer, back, still, drainMpsc, MpscRing.step, sequencing'.1]
  have first : SequencerMoved t { t with mpsc := { t.mpsc with consumer := .drain }, sequencer := .drain } :=
    ⟨_, _, _, _, _, _, _, _, _, _, _, _, _, rfl, rfl, rfl, rfl, rfl⟩
  have ready'' : Ready cfg { t with mpsc := { t.mpsc with consumer := .drain }, sequencer := .drain } :=
    ⟨stepSequencer_inv ready'.inv taken, ready'.claimed, ready'.fits⟩
  apply leads_sequencer taken
  apply (sequence_leads True small ready'' rfl (fun _ => first.unclaimed (moved.unclaimed free)) fun _ => rfl).mono
  rintro u ⟨last, moved', back', level⟩
  exact ⟨last, moved.trans (first.trans moved'), back', level trivial⟩

end Sequencer

end Server

end Titan
