import Titan.Pipeline.ServerInvariant

namespace Titan

open Journaler Sequencer PinNode Transition

namespace Server

variable {n : Nat} {cfg : ServerConfig} {s s' : Server n} {i : Fin n}

theorem Inv.not_stopped (inv : Inv cfg s) (busy : s.gateways i ≠ .stopped) : s.gatewayStopped ≠ true :=
  fun set => busy (inv.stopped set i)

theorem startPush_inv {o : Order} (inv : Inv cfg s) (taken : s.startPush i o = some s') : Inv cfg s' := by
  rw [startPush] at taken
  split at taken
  · rename_i running
    cases taken
    have busy : s.gateways i ≠ .stopped := by simp [running]
    have pushing := inv.pushing i
    rw [running] at pushing
    refine { inv with pushing := ?_, stopped := fun set => absurd set (inv.not_stopped busy) }
    intro j
    by_cases here : j = i
    · subst here
      simp only [Function.update_self]
      refine ⟨by rw [pushing.2], ?_⟩
      intro item call
      rw [pushing.1] at call
      cases call
    · simp only [Function.update_of_ne here]
      exact inv.pushing j
  · cases taken

theorem Inv.gatewayStep {mpsc : MpscRing (Fin n) Order} (gateway : Gateway) (inv : Inv cfg s)
    (busy : s.gateways i ≠ .stopped) (ring : MpscRing.Inv cfg.mpscSize mpsc) (kept : MpscRing.OthersKept s.mpsc mpsc i)
    (pushing : Pushing mpsc i (s.pushed i) gateway) :
    Inv cfg { s with mpsc := mpsc, gateways := Function.update s.gateways i gateway } := by
  have unset := inv.not_stopped busy
  refine { inv with
    mpsc := ring
    pushing := ?_
    stopped := fun set => absurd set unset
    sequencing := inv.sequencing.carry kept.consumer kept.taken kept.dequeue (fun set => absurd set unset) rfl rfl id }
  intro j
  by_cases here : j = i
  · subst here
    simp only [Function.update_self]
    exact pushing
  · have before := inv.pushing j
    simp only [Function.update_of_ne here]
    revert before
    cases s.gateways j <;> simp only [Pushing, kept.producers j here, kept.calls j here] <;> exact id

theorem stepGateway_inv {spurious : Bool} (inv : Inv cfg s) (taken : s.stepGateway cfg i spurious = some s') : Inv cfg s' := by
  rw [stepGateway] at taken
  split at taken
  · rename_i o here
    have busy : s.gateways i ≠ .stopped := by simp [here]
    have pushing := inv.pushing i
    rw [here] at pushing
    have same : Function.update s.gateways i (.pushing o) = s.gateways := by rw [← here, Function.update_eq_self]
    split at taken
    · -- the call starts, or starts again after a refusal
      rename_i idle
      rcases Option.map_eq_some_iff.mp taken with ⟨⟨mpsc, e⟩, called, rfl⟩
      have ring := MpscRing.step_inv cfg.mpscPower cfg.mpscWide inv.mpsc called
      simp only [MpscRing.step, idle] at called
      cases called
      have next := inv.gatewayStep (.pushing o) busy ring (MpscRing.setProducer_kept s.mpsc i (.load o))
        ⟨pushing.1, ?_⟩
      · rwa [same] at next
      · intro item call
        simp only [MpscRing.setProducer, Function.update_self] at call
        exact (Option.some.inj call).symm
    · rcases Option.map_eq_some_iff.mp taken with ⟨⟨mpsc, e⟩, called, eq⟩
      have ring := MpscRing.step_inv cfg.mpscPower cfg.mpscWide inv.mpsc called
      rcases MpscRing.produce_calls called with ⟨produced, kept⟩
      cases produced with
      | underway returns call calls =>
        have next := inv.gatewayStep (.pushing o) busy ring kept
          ⟨by rw [calls]; exact pushing.1, by rw [call]; exact pushing.2⟩
        rw [same] at next
        dsimp only at eq
        split at eq
        · exact absurd rfl (returns true)
        · cases eq
          exact next
      | refused idle calls =>
        cases eq
        have next := inv.gatewayStep (.pushing o) busy ring kept
          ⟨by rw [calls]; exact pushing.1, by rw [idle]; intro item call; cases call⟩
        rwa [same] at next
      | published call idle calls =>
        cases eq
        exact inv.gatewayStep .running busy ring kept ⟨idle, by rw [calls, pushing.2 _ call]; exact pushing.1⟩
  · cases taken

theorem stopGateway_inv (inv : Inv cfg s) (taken : s.stopGateway i = some s') : Inv cfg s' := by
  rw [stopGateway] at taken
  split at taken
  · rename_i running
    cases taken
    have busy : s.gateways i ≠ .stopped := by simp [running]
    have pushing := inv.pushing i
    rw [running] at pushing
    refine { inv with pushing := ?_, stopped := fun set => absurd set (inv.not_stopped busy) }
    intro j
    by_cases here : j = i
    · subst here
      simp only [Function.update_self]
      exact pushing
    · simp only [Function.update_of_ne here]
      exact inv.pushing j
  · cases taken

theorem joinGateways_inv (inv : Inv cfg s) (taken : s.joinGateways = some s') : Inv cfg s' := by
  rw [joinGateways] at taken
  split at taken
  · rename_i all
    cases taken
    exact { inv with
      stopped := fun _ => all
      sequencing := inv.sequencing.carry rfl rfl rfl (fun _ => rfl) rfl rfl fun _ => rfl }
  · cases taken

theorem Inv.sequencerDrain {mpsc : MpscRing (Fin n) Order} (pc : SequencerPc) (inv : Inv cfg s)
    (active : s.sequencer ≠ .exited) (ring : MpscRing.Inv cfg.mpscSize mpsc) (kept : MpscRing.ProducersKept s.mpsc mpsc)
    (sequencing : Sequencing cfg mpsc s.ingress s.seq s.gatewayStopped pc) :
    Inv cfg { s with mpsc := mpsc, sequencer := pc } := by
  refine { inv with
    mpsc := ring
    pushing := ?_
    sequencing := sequencing
    sequenced := fun set => absurd (inv.sequenced set) active }
  intro i
  have before := inv.pushing i
  revert before
  cases s.gateways i <;> simp only [Pushing, kept.producers, kept.calls] <;> exact id

theorem Inv.sequencerPush {ingress : SpscRing Order} {seq : Sequencer} (pc : SequencerPc) (inv : Inv cfg s)
    (active : s.sequencer ≠ .exited) (ring : SpscRing.Inv cfg.ingressSize ingress)
    (kept : SpscRing.ConsumerKept s.ingress ingress)
    (sequencing : Sequencing cfg s.mpsc ingress seq s.gatewayStopped pc) :
    Inv cfg { s with ingress := ingress, seq := seq, sequencer := pc } := by
  have unset : s.sequencerDone ≠ true := fun set => active (inv.sequenced set)
  exact { inv with
    ingress := ring
    sequencing := sequencing
    sequenced := fun set => absurd set unset
    matching := inv.matching.carry kept.consumer kept.taken kept.next (fun set => absurd set unset) rfl rfl id }

theorem Inv.sequencerMove {seq : Sequencer} (pc : SequencerPc) (inv : Inv cfg s) (active : s.sequencer ≠ .exited)
    (sequencing : Sequencing cfg s.mpsc s.ingress seq s.gatewayStopped pc) :
    Inv cfg { s with seq := seq, sequencer := pc } :=
  inv.sequencerPush pc active inv.ingress ⟨rfl, rfl, rfl⟩ sequencing

theorem drainMpsc_inv (inv : Inv cfg s) (active : s.sequencer ≠ .exited) (idle : s.mpsc.consumer = .idle)
    (handed : Handed cfg s.ingress s.seq s.mpsc.taken) (taken : s.drainMpsc cfg = some s') : Inv cfg s' := by
  rcases Option.map_eq_some_iff.mp taken with ⟨⟨mpsc, e⟩, called, rfl⟩
  have ring := MpscRing.step_inv cfg.mpscPower cfg.mpscWide inv.mpsc called
  simp only [MpscRing.step, idle] at called
  cases called
  exact inv.sequencerDrain _ active ring ⟨rfl, rfl, rfl, rfl⟩ ⟨rfl, handed⟩

theorem stepSequencer_drain (inv : Inv cfg s) (here : s.sequencer = .drain) (taken : s.stepSequencer cfg = some s') :
    Inv cfg s' := by
  have active : s.sequencer ≠ .exited := by simp [here]
  have sequencing := inv.sequencing
  rw [here] at sequencing
  rcases sequencing with ⟨batch, handed⟩
  simp only [stepSequencer, here] at taken
  rcases Option.map_eq_some_iff.mp taken with ⟨⟨mpsc, e⟩, called, eq⟩
  have ring := MpscRing.step_inv cfg.mpscPower cfg.mpscWide inv.mpsc called
  rcases MpscRing.consume_batch batch called with ⟨consumed, kept⟩
  cases consumed with
  | silent batch' same =>
    cases eq
    exact inv.sequencerDrain .drain active ring kept ⟨batch', by rw [same]; exact handed⟩
  | seen batch' more =>
    cases eq
    exact inv.sequencerDrain _ active ring kept ⟨batch', _, more, handed⟩
  | drained idle same =>
    cases eq
    exact inv.sequencerDrain _ active ring kept ⟨idle, by rw [same]; exact handed⟩

theorem stepSequencer_journal {o : Order} (inv : Inv cfg s) (here : s.sequencer = .journal o)
    (taken : s.stepSequencer cfg = some s') : Inv cfg s' := by
  have active : s.sequencer ≠ .exited := by simp [here]
  have sequencing := inv.sequencing
  rw [here] at sequencing
  rcases sequencing with ⟨batch, before, last, handed⟩
  simp only [stepSequencer, here] at taken
  split at taken
  · rename_i seq stamped journaled
    cases taken
    rcases handed.logged.journal journaled with ⟨logged, concat⟩
    apply inv.sequencerMove _ active
    refine ⟨batch, by rw [last]; exact logged, by rw [last, concat, handed.calls], ?_⟩
    rw [handed.idle]
    intro call some
    cases some
  · cases taken

/-- The loop around `try_publish`: the order is in the log and not on the ring until a call returns
    true. -/
theorem stepSequencer_push {o : Order} (inv : Inv cfg s) (here : s.sequencer = .push o)
    (taken : s.stepSequencer cfg = some s') : Inv cfg s' := by
  have active : s.sequencer ≠ .exited := by simp [here]
  have sequencing := inv.sequencing
  rw [here] at sequencing
  rcases sequencing with ⟨batch, logged, last, call⟩
  have stays {ingress : SpscRing Order} (ring : SpscRing.Inv cfg.ingressSize ingress)
      (kept : SpscRing.ConsumerKept s.ingress ingress) (calls : ingress.calls = s.ingress.calls)
      (mine : ∀ c, ingress.producer.call = some c → c = ([o], false)) :
      Inv cfg { s with ingress := ingress, sequencer := .push o } :=
    inv.sequencerPush (.push o) active ring kept ⟨batch, logged, by rw [calls]; exact last, mine⟩
  simp only [stepSequencer, here] at taken
  split at taken
  · rename_i idle
    rcases Option.map_eq_some_iff.mp taken with ⟨⟨ingress, e⟩, called, rfl⟩
    have ring := SpscRing.step_inv cfg.ingressPower inv.ingress called
    simp only [SpscRing.step, idle] at called
    cases called
    exact stays ring ⟨rfl, rfl, rfl⟩ rfl fun c same => (Option.some.inj same).symm
  · rcases Option.map_eq_some_iff.mp taken with ⟨⟨ingress, e⟩, called, eq⟩
    have ring := SpscRing.step_inv cfg.ingressPower inv.ingress called
    rcases SpscRing.produce_calls (SpscRing.produce_of_step called) with ⟨produced, kept⟩
    cases produced with
    | underway returns batched same calls =>
      dsimp only at eq
      split at eq
      · exact absurd rfl (returns true)
      · cases eq
        exact stays ring kept calls (by rw [same]; exact call)
    | refused _ idle calls =>
      cases eq
      apply stays ring kept calls
      rw [idle]
      intro c same
      cases same
    | published mine idle calls =>
      cases eq
      have item := (Prod.mk.inj (call _ mine)).1
      rcases ({ s.seq with ingress := s.seq.ingress ++ [o] } : Sequencer).cadence_frame cfg.pg with
        ⟨file, writes, capacity, -, next⟩
      exact inv.sequencerPush .drain active ring kept
        ⟨batch, logged.carry writes file capacity next, by rw [calls, item]; exact last.symm, idle⟩
    | batched mine => exact absurd (Prod.mk.inj (call _ mine)).2 (by decide)

theorem stepSequencer_inv (inv : Inv cfg s) (taken : s.stepSequencer cfg = some s') : Inv cfg s' := by
  have sequencing := inv.sequencing
  cases here : s.sequencer with
  | drain => exact stepSequencer_drain inv here taken
  | journal o => exact stepSequencer_journal inv here taken
  | push o => exact stepSequencer_push inv here taken
  | check =>
    have active : s.sequencer ≠ .exited := by simp [here]
    rw [here] at sequencing
    simp only [stepSequencer, here] at taken
    split at taken
    · rename_i set
      cases taken
      exact inv.sequencerMove _ active ⟨set, sequencing⟩
    · exact drainMpsc_inv inv active sequencing.1 sequencing.2 taken
  | loadEnqueue =>
    have active : s.sequencer ≠ .exited := by simp [here]
    rw [here] at sequencing
    simp only [stepSequencer, here] at taken
    cases taken
    exact inv.sequencerMove _ active ⟨sequencing.1, rfl, sequencing.2⟩
  | loadDequeue e =>
    have active : s.sequencer ≠ .exited := by simp [here]
    rw [here] at sequencing
    rcases sequencing with ⟨set, loaded, idle, handed⟩
    simp only [stepSequencer, here] at taken
    split at taken
    · -- the gateways have stopped, so that the claims are still those that were loaded
      rename_i level
      cases taken
      exact inv.sequencerMove _ active ⟨set, by rw [← level, loaded], idle, handed⟩
    · exact drainMpsc_inv inv active idle handed taken
  | flush =>
    have active : s.sequencer ≠ .exited := by simp [here]
    rw [here] at sequencing
    rcases sequencing with ⟨set, level, idle, handed⟩
    simp only [stepSequencer, here] at taken
    cases taken
    rcases s.seq.journal.syncDirty_frame cfg.pg .sync with ⟨file, writes, capacity, -⟩
    exact inv.sequencerMove _ active
      ⟨set, level, idle, handed.logged.carry writes file capacity rfl, handed.calls, handed.idle⟩
  | done =>
    rw [here] at sequencing
    simp only [stepSequencer, here] at taken
    cases taken
    exact { inv with
      sequencing := sequencing
      sequenced := fun _ => rfl
      matching := inv.matching.carry rfl rfl rfl (fun _ => rfl) rfl rfl fun _ => rfl }
  | exited =>
    simp only [stepSequencer, here] at taken
    cases taken

theorem Inv.matcherDrain {ingress : SpscRing Order} (pc : MatcherPc) (inv : Inv cfg s) (active : s.matcher ≠ .exited)
    (ring : SpscRing.Inv cfg.ingressSize ingress) (kept : SpscRing.ProducerKept s.ingress ingress)
    (matching : Matching ingress s.egress s.buf s.submitted s.emitted s.sequencerDone pc) :
    Inv cfg { s with ingress := ingress, matcher := pc } :=
  { inv with
    ingress := ring
    sequencing := inv.sequencing.carry rfl rfl rfl (fun _ => rfl) kept.calls kept.producer id
    matching := matching
    matched := fun set => absurd (inv.matched set) active }

theorem Inv.matcherPublish {egress : SpscRing TradeEvent} (buf : List TradeEvent) (pc : MatcherPc) (inv : Inv cfg s)
    (active : s.matcher ≠ .exited) (ring : SpscRing.Inv cfg.egressSize egress)
    (kept : SpscRing.ConsumerKept s.egress egress)
    (matching : Matching s.ingress egress buf s.submitted s.emitted s.sequencerDone pc) :
    Inv cfg { s with egress := egress, buf := buf, matcher := pc } := by
  have unset : s.matcherDone ≠ true := fun set => active (inv.matched set)
  exact { inv with
    egress := ring
    matching := matching
    matched := fun set => absurd set unset
    publishing := inv.publishing.carry kept.consumer kept.taken kept.next (fun set => absurd set unset) id }

theorem Inv.matcherMove (pc : MatcherPc) (inv : Inv cfg s) (active : s.matcher ≠ .exited)
    (matching : Matching s.ingress s.egress s.buf s.submitted s.emitted s.sequencerDone pc) :
    Inv cfg { s with matcher := pc } :=
  inv.matcherPublish s.buf pc active inv.egress ⟨rfl, rfl, rfl⟩ matching

theorem drainIngress_inv (inv : Inv cfg s) (active : s.matcher ≠ .exited) (idle : s.ingress.consumer = .idle)
    (given : s.ingress.taken = s.submitted) (free : s.egress.producer = .idle) (shown : s.emitted = s.egress.calls ++ s.buf)
    (taken : s.drainIngress cfg = some s') : Inv cfg s' := by
  rcases Option.map_eq_some_iff.mp taken with ⟨⟨ingress, e⟩, called, rfl⟩
  have ring := SpscRing.step_inv cfg.ingressPower inv.ingress called
  simp only [SpscRing.step, idle] at called
  cases called
  exact inv.matcherDrain .drain active ring ⟨rfl, rfl, rfl, rfl⟩ ⟨rfl, given, free, shown⟩

theorem publishBuf_inv {buf : List TradeEvent} {pc : MatcherPc} (inv : Inv cfg s) (active : s.matcher ≠ .exited)
    (free : s.egress.producer = .idle)
    (matching : ∀ egress : SpscRing TradeEvent, egress.producer.call = some (buf, true) → egress.calls = s.egress.calls →
      Matching s.ingress egress buf s.submitted s.emitted s.sequencerDone pc)
    (taken : ({ s with buf := buf } : Server n).publishBuf cfg pc = some s') : Inv cfg s' := by
  rcases Option.map_eq_some_iff.mp taken with ⟨⟨egress, e⟩, called, rfl⟩
  have ring := SpscRing.step_inv cfg.egressPower inv.egress called
  simp only [SpscRing.step, free] at called
  cases called
  exact inv.matcherPublish buf pc active ring ⟨rfl, rfl, rfl⟩ (matching _ rfl rfl)

theorem stepPublish_inv {pc : MatcherPc} (inv : Inv cfg s) (active : s.matcher ≠ .exited)
    (busy : s.egress.producer.call = some (s.buf, true))
    (before : ∀ egress : SpscRing TradeEvent, egress.producer.call = some (s.buf, true) → egress.calls = s.egress.calls →
      Matching s.ingress egress s.buf s.submitted s.emitted s.sequencerDone s.matcher)
    (after : ∀ egress : SpscRing TradeEvent, egress.producer = .idle → egress.calls = s.egress.calls ++ s.buf →
      Matching s.ingress egress [] s.submitted s.emitted s.sequencerDone pc)
    (taken : s.stepPublish cfg pc = some s') : Inv cfg s' := by
  rcases Option.map_eq_some_iff.mp taken with ⟨⟨egress, e⟩, called, eq⟩
  have ring := SpscRing.step_inv cfg.egressPower inv.egress called
  rcases SpscRing.produce_calls (SpscRing.produce_of_step called) with ⟨produced, kept⟩
  cases produced with
  | underway returns batched same calls =>
    have next := inv.matcherPublish s.buf s.matcher active ring kept (before egress (same.trans busy) calls)
    dsimp only at eq
    split at eq
    · exact absurd rfl batched
    · cases eq
      exact next
  | refused mine | published mine =>
    rw [busy] at mine
    exact absurd (Prod.mk.inj (Option.some.inj mine)).2 (by decide)
  | batched mine idle calls =>
    rw [busy] at mine
    rw [← (Prod.mk.inj (Option.some.inj mine)).1] at calls
    cases eq
    exact inv.matcherPublish [] pc active ring kept (after egress idle calls)

theorem stepMatcher_drain (inv : Inv cfg s) (here : s.matcher = .drain) (taken : s.stepMatcher cfg = some s') :
    Inv cfg s' := by
  have active : s.matcher ≠ .exited := by simp [here]
  have matching := inv.matching
  rw [here] at matching
  rcases matching with ⟨batch, given, free, shown⟩
  simp only [stepMatcher, here] at taken
  rcases Option.map_eq_some_iff.mp taken with ⟨⟨ingress, e⟩, called, eq⟩
  have ring := SpscRing.step_inv cfg.ingressPower inv.ingress called
  rcases SpscRing.consume_batch batch (SpscRing.consume_of_step called) with ⟨consumed, kept⟩
  cases consumed with
  | silent batch' same =>
    cases eq
    exact inv.matcherDrain .drain active ring kept ⟨batch', same.trans given, free, shown⟩
  | seen batch' more =>
    cases eq
    exact inv.matcherDrain _ active ring kept ⟨batch', by rw [more, given], free, shown⟩
  | drained idle same =>
    cases eq
    exact inv.matcherDrain _ active ring kept ⟨idle, same.trans given, free, shown⟩

theorem stepMatcher_submit {o : Order} (inv : Inv cfg s) (here : s.matcher = .submit o)
    (taken : s.stepMatcher cfg = some s') : Inv cfg s' := by
  have active : s.matcher ≠ .exited := by simp [here]
  have matching := inv.matching
  rw [here] at matching
  rcases matching with ⟨batch, given, free, shown⟩
  simp only [stepMatcher, here] at taken
  rcases Option.map_eq_some_iff.mp taken with ⟨⟨book, events, result⟩, called, rfl⟩
  have single : Matcher.submitAll [o] s.book = some (book, events) := by
    rw [Matcher.submitAll, called]
    simp [Matcher.submitAll]
  exact { inv with
    run := Matcher.submitAll_append s.submitted _ inv.run single
    matching := ⟨batch, given, free, by rw [shown]⟩
    matched := fun set => absurd (inv.matched set) active }

theorem stepMatcher_emit {events : List TradeEvent} (inv : Inv cfg s) (here : s.matcher = .emit events)
    (taken : s.stepMatcher cfg = some s') : Inv cfg s' := by
  have active : s.matcher ≠ .exited := by simp [here]
  have matching := inv.matching
  rw [here] at matching
  rcases matching with ⟨batch, given, free, shown⟩
  cases events with
  | nil =>
    simp only [stepMatcher, here] at taken
    cases taken
    exact inv.matcherMove .drain active ⟨batch, given, free, by rw [shown, List.append_nil]⟩
  | cons event rest =>
    have more : s.emitted = s.egress.calls ++ (s.buf ++ [event]) ++ rest := by
      rw [shown]
      simp
    simp only [stepMatcher, here] at taken
    split at taken
    · rw [← here] at taken
      apply publishBuf_inv inv active free _ taken
      intro egress call calls
      exact ⟨batch, given, call, by rw [calls]; exact more⟩
    · cases taken
      exact inv.matcherPublish _ (.emit rest) active inv.egress ⟨rfl, rfl, rfl⟩ ⟨batch, given, free, more⟩

theorem stepMatcher_inv (inv : Inv cfg s) (taken : s.stepMatcher cfg = some s') : Inv cfg s' := by
  have matching := inv.matching
  cases here : s.matcher with
  | drain => exact stepMatcher_drain inv here taken
  | submit o => exact stepMatcher_submit inv here taken
  | emit events => exact stepMatcher_emit inv here taken
  | check =>
    have active : s.matcher ≠ .exited := by simp [here]
    rw [here] at matching
    rcases matching with ⟨idle, given, free, shown, empty⟩
    simp only [stepMatcher, here] at taken
    split at taken
    · rename_i set
      cases taken
      exact inv.matcherMove _ active ⟨set, idle, given, free, shown, empty⟩
    · exact drainIngress_inv inv active idle given free (by rw [empty, List.append_nil]; exact shown) taken
  | loadCursor =>
    have active : s.matcher ≠ .exited := by simp [here]
    rw [here] at matching
    rcases matching with ⟨set, rest⟩
    simp only [stepMatcher, here] at taken
    cases taken
    exact inv.matcherMove _ active ⟨set, rfl, rest⟩
  | loadNext c =>
    have active : s.matcher ≠ .exited := by simp [here]
    rw [here] at matching
    rcases matching with ⟨set, loaded, idle, given, free, shown, empty⟩
    simp only [stepMatcher, here] at taken
    split at taken
    · rename_i level
      cases taken
      exact inv.matcherMove _ active ⟨set, by rw [← level, loaded], idle, given, free, shown, empty⟩
    · exact drainIngress_inv inv active idle given free (by rw [empty, List.append_nil]; exact shown) taken
  | publish rest =>
    have active : s.matcher ≠ .exited := by simp [here]
    rw [here] at matching
    rcases matching with ⟨batch, given, busy, shown⟩
    simp only [stepMatcher, here] at taken
    apply stepPublish_inv inv active busy _ _ taken
    · intro egress call calls
      rw [here]
      exact ⟨batch, given, call, by rw [calls]; exact shown⟩
    · intro egress idle calls
      exact ⟨batch, given, idle, by rw [calls, List.append_nil]; exact shown⟩
  | flush =>
    have active : s.matcher ≠ .exited := by simp [here]
    rw [here] at matching
    rcases matching with ⟨idle, given, free, shown⟩
    simp only [stepMatcher, here] at taken
    split at taken
    · apply publishBuf_inv inv active free _ taken
      intro egress call calls
      exact ⟨idle, given, call, by rw [calls]; exact shown⟩
    · rename_i empty
      cases taken
      have empty := not_not.mp empty
      exact inv.matcherMove _ active ⟨idle, given, free, by rw [shown, empty, List.append_nil], empty⟩
  | flushing =>
    have active : s.matcher ≠ .exited := by simp [here]
    rw [here] at matching
    rcases matching with ⟨idle, given, busy, shown⟩
    simp only [stepMatcher, here] at taken
    apply stepPublish_inv inv active busy _ _ taken
    · intro egress call calls
      rw [here]
      exact ⟨idle, given, call, by rw [calls]; exact shown⟩
    · intro egress free calls
      exact ⟨idle, given, free, by rw [calls]; exact shown, rfl⟩
  | done =>
    rw [here] at matching
    simp only [stepMatcher, here] at taken
    cases taken
    exact { inv with
      matching := matching
      matched := fun _ => rfl
      publishing := inv.publishing.carry rfl rfl rfl (fun _ => rfl) fun _ => rfl }
  | exited =>
    simp only [stepMatcher, here] at taken
    cases taken

theorem Inv.publisherDrain {egress : SpscRing TradeEvent} (batch : List TradeEvent) (batches : List (List TradeEvent))
    (pc : PublisherPc) (inv : Inv cfg s) (ring : SpscRing.Inv cfg.egressSize egress)
    (kept : SpscRing.ProducerKept s.egress egress) (publishing : Publishing egress batch batches s.matcherDone pc) :
    Inv cfg { s with egress := egress, batch := batch, batches := batches, publisher := pc } :=
  { inv with
    egress := ring
    matching := inv.matching.carry rfl rfl rfl (fun _ => rfl) kept.calls kept.producer id
    publishing := publishing }

theorem Inv.publisherMove (batch : List TradeEvent) (batches : List (List TradeEvent)) (pc : PublisherPc) (inv : Inv cfg s)
    (publishing : Publishing s.egress batch batches s.matcherDone pc) :
    Inv cfg { s with batch := batch, batches := batches, publisher := pc } :=
  inv.publisherDrain batch batches pc inv.egress ⟨rfl, rfl, rfl, rfl⟩ publishing

theorem drainEgress_inv (inv : Inv cfg s) (idle : s.egress.consumer = .idle) (handed : s.egress.taken = s.batches.flatten)
    (empty : s.batch = []) (taken : s.drainEgress cfg = some s') : Inv cfg s' := by
  rcases Option.map_eq_some_iff.mp taken with ⟨⟨egress, e⟩, called, rfl⟩
  have ring := SpscRing.step_inv cfg.egressPower inv.egress called
  simp only [SpscRing.step, idle] at called
  cases called
  exact inv.publisherDrain s.batch s.batches .drain ring ⟨rfl, rfl, rfl, rfl⟩
    ⟨rfl, by rw [empty, List.append_nil]; exact handed⟩

theorem flushBatch_eq (s : Server n) : ∃ batches : List (List TradeEvent),
    s.flushBatch = { s with batch := [], batches := batches } ∧ batches.flatten = s.batches.flatten ++ s.batch := by
  rw [flushBatch]
  split
  · exact ⟨s.batches ++ [s.batch], rfl, by rw [List.flatten_append, List.flatten_singleton]⟩
  · rename_i empty
    have empty := not_not.mp empty
    refine ⟨s.batches, ?_, by rw [empty, List.append_nil]⟩
    rw [← empty]

theorem stepPublisher_drain (inv : Inv cfg s) (here : s.publisher = .drain) (taken : s.stepPublisher cfg = some s') :
    Inv cfg s' := by
  have publishing := inv.publishing
  rw [here] at publishing
  rcases publishing with ⟨batch, handed⟩
  simp only [stepPublisher, here] at taken
  rcases Option.map_eq_some_iff.mp taken with ⟨⟨egress, e⟩, called, eq⟩
  have ring := SpscRing.step_inv cfg.egressPower inv.egress called
  rcases SpscRing.consume_batch batch (SpscRing.consume_of_step called) with ⟨consumed, kept⟩
  cases consumed with
  | silent batch' same =>
    cases eq
    exact inv.publisherDrain s.batch s.batches .drain ring kept ⟨batch', same.trans handed⟩
  | @seen event batch' more =>
    have more : egress.taken = s.batches.flatten ++ (s.batch ++ [event]) := by
      rw [more, handed, List.append_assoc]
    dsimp only at eq
    split at eq
    · -- the buffer is full: `flush` hands it over inside the handler
      rcases flushBatch_eq { s with egress := egress, batch := s.batch ++ [event] } with ⟨batches, flushed, joined⟩
      rw [here] at flushed
      rw [flushed] at eq
      cases eq
      exact inv.publisherDrain [] batches .drain ring kept ⟨batch', by rw [joined, List.append_nil]; exact more⟩
    · cases eq
      exact inv.publisherDrain (s.batch ++ [event]) s.batches .drain ring kept ⟨batch', more⟩
  | drained idle same =>
    cases eq
    exact inv.publisherDrain _ _ _ ring kept ⟨idle, same.trans handed⟩

theorem stepPublisher_inv (inv : Inv cfg s) (taken : s.stepPublisher cfg = some s') : Inv cfg s' := by
  have publishing := inv.publishing
  cases here : s.publisher with
  | drain => exact stepPublisher_drain inv here taken
  | check =>
    rw [here] at publishing
    rcases publishing with ⟨idle, handed, empty⟩
    simp only [stepPublisher, here] at taken
    split at taken
    · rename_i set
      cases taken
      exact inv.publisherMove _ _ _ ⟨set, idle, handed, empty⟩
    · exact drainEgress_inv inv idle handed empty taken
  | loadCursor =>
    rw [here] at publishing
    rcases publishing with ⟨set, rest⟩
    simp only [stepPublisher, here] at taken
    cases taken
    exact inv.publisherMove _ _ _ ⟨set, rfl, rest⟩
  | loadNext c =>
    rw [here] at publishing
    rcases publishing with ⟨set, loaded, idle, handed, empty⟩
    simp only [stepPublisher, here] at taken
    split at taken
    · rename_i level
      cases taken
      exact inv.publisherMove _ _ .last
        ⟨set, by rw [← level, loaded], idle, by rw [empty, List.append_nil]; exact handed⟩
    · exact drainEgress_inv inv idle handed empty taken
  | flush =>
    rw [here] at publishing
    rcases publishing with ⟨idle, handed⟩
    rcases flushBatch_eq s with ⟨batches, flushed, joined⟩
    simp only [stepPublisher, here, flushed] at taken
    cases taken
    exact inv.publisherMove [] batches .check ⟨idle, handed.trans joined.symm, rfl⟩
  | last =>
    rw [here] at publishing
    rcases publishing with ⟨set, level, idle, handed⟩
    rcases flushBatch_eq s with ⟨batches, flushed, joined⟩
    simp only [stepPublisher, here, flushed] at taken
    cases taken
    exact inv.publisherMove [] batches .exited ⟨set, level, idle, handed.trans joined.symm, rfl⟩
  | exited =>
    simp only [stepPublisher, here] at taken
    cases taken

theorem step_inv {a : Action n} {e : Unit} (inv : Inv cfg s) (taken : step cfg a s = some (s', e)) : Inv cfg s' := by
  unfold step at taken
  rcases Option.map_eq_some_iff.mp taken with ⟨next, moved, eq⟩
  cases eq
  cases a with
  | push i o => exact startPush_inv inv moved
  | gateway i spurious => exact stepGateway_inv inv moved
  | stop i => exact stopGateway_inv inv moved
  | join => exact joinGateways_inv inv moved
  | sequencer => exact stepSequencer_inv inv moved
  | matcher => exact stepMatcher_inv inv moved
  | publisher => exact stepPublisher_inv inv moved

theorem reachable_inv (reach : Reachable (step cfg) (create n cfg) s) : Inv cfg s :=
  reach.invariant (create_inv n cfg) fun _ _ _ _ inv taken => step_inv inv taken

theorem Inv.wal_exited (inv : Inv cfg s) (exited : s.sequencer = .exited) :
    s.wal = stampFrom 0 s.mpsc.items ∧ s.ingress.sent = s.wal := by
  have sequencing := inv.sequencing
  rw [exited] at sequencing
  rcases sequencing with ⟨-, level, idle, handed⟩
  rw [inv.mpsc.taken_all idle level] at handed
  have wal := handed.logged.wal_eq
  have sent : s.ingress.sent = s.ingress.calls := by
    apply inv.ingress.sent_eq
    intro items call
    rw [handed.idle] at call
    cases call
  exact ⟨wal, by rw [sent, handed.calls, wal]⟩

theorem Inv.submitted_exited (inv : Inv cfg s) (exited : s.matcher = .exited) :
    s.submitted = s.ingress.sent ∧ s.egress.sent = s.emitted := by
  have matching := inv.matching
  rw [exited] at matching
  rcases matching with ⟨-, level, idle, given, free, shown, -⟩
  have sent : s.egress.sent = s.egress.calls := by
    apply inv.egress.sent_eq
    intro items call
    rw [free] at call
    cases call
  exact ⟨by rw [← given, inv.ingress.taken_all idle level], sent.trans shown.symm⟩

theorem Inv.batches_exited (inv : Inv cfg s) (exited : s.publisher = .exited) : s.batches.flatten = s.egress.sent := by
  have publishing := inv.publishing
  rw [exited] at publishing
  rcases publishing with ⟨-, level, idle, handed, -⟩
  rw [← handed, inv.egress.taken_all idle level]

theorem Inv.claimed_stopped (inv : Inv cfg s) (i : Fin n) (stopped : s.gateways i = .stopped) :
    (s.mpsc.claimed.filter fun c => c.1 = i).map Prod.snd = s.pushed i := by
  have pushing := inv.pushing i
  rw [stopped] at pushing
  rw [inv.mpsc.pushed_idle pushing.1, pushing.2]

/-- Record `i` of the log carries `i`, the matcher was given a prefix of the log, and its events are
    those of the orders it was given. When every thread has returned, the log is an interleaving
    of what the gateways pushed, each in its own order and with nothing but the number changed,
    the matcher was given the whole log, and the publisher handed over every event. -/
theorem exactly_once (reach : Reachable (step cfg) (create n cfg) s) :
    (∀ i o, s.wal[i]? = some o → o.seq = UInt64.ofNat i) ∧ s.submitted <+: s.wal ∧
      Matcher.submitAll s.submitted (OrderBook.create cfg.maxNodes cfg.idCapacity cfg.levelCapacity) =
        some (s.book, s.emitted) ∧
      (s.Exited → ∃ claimed : List (Fin n × Order), s.wal = stampFrom 0 (claimed.map Prod.snd) ∧
        (∀ i, (claimed.filter fun c => c.1 = i).map Prod.snd = s.pushed i) ∧ s.submitted = s.wal ∧
        s.batches.flatten = s.emitted) := by
  have inv := reachable_inv reach
  rcases inv.sequencing.logged with ⟨orders, logged, ahead, single⟩
  have wal := logged.wal_eq
  refine ⟨?_, ?_, inv.run, ?_⟩
  · intro i o held
    rw [wal] at held
    rw [stampFrom_seq held, Nat.zero_add]
  · have taken := inv.matching.submitted_taken
    have sent := inv.ingress.taken_of_sent
    rw [inv.ingress.sent_eq single] at sent
    rw [wal]
    exact taken.trans (sent.trans ahead)
  · intro exited
    rcases exited with ⟨gateways, sequencer, matcher, publisher⟩
    rcases inv.wal_exited sequencer with ⟨items, sent⟩
    rcases inv.submitted_exited matcher with ⟨given, shown⟩
    exact ⟨s.mpsc.claimed, items, fun i => inv.claimed_stopped i (gateways i), given.trans sent,
      (inv.batches_exited publisher).trans shown⟩

def smallConfig : ServerConfig where
  mpscSize := 2
  ingressSize := 2
  egressSize := 2
  walCapacity := 4
  flushInterval := 1
  syncEvery := 1
  pg := 4096
  maxNodes := 2
  idCapacity := 4
  levelCapacity := 4
  hwm := 2
  pubHwm := 2
  mpscPower := ⟨1, rfl⟩
  mpscWide := Nat.le_refl 2
  ingressPower := ⟨1, rfl⟩
  egressPower := ⟨1, rfl⟩
  walFits := by decide

def soldOrder : Order := { id := 1, seq := 7, price := 10, quantity := 5, remaining := 5, side := 1, type := 0 }

def boughtOrder : Order := { id := 2, seq := 7, price := 10, quantity := 3, remaining := 3, side := 0, type := 0 }

def overtaken : List (Action 2) :=
  List.flatten [[.push 0 soldOrder, .push 1 boughtOrder], List.replicate 2 (.gateway 1 false),
    List.replicate 6 (.gateway 0 false), List.replicate 6 (.gateway 1 false), [.stop 0], List.replicate 8 .sequencer,
    [.stop 1, .join, .matcher, .publisher], List.replicate 17 .sequencer, List.replicate 21 .matcher,
    List.replicate 10 .publisher]

theorem exactly_once_overtaken : ∃ s : Server 2, Reachable (step smallConfig) (create 2 smallConfig) s ∧ s.Exited ∧
    s.pushed 0 = [soldOrder] ∧ s.pushed 1 = [boughtOrder] ∧ s.emitted.length = 1 ∧
    ∃ claimed : List (Fin 2 × Order), s.wal = stampFrom 0 (claimed.map Prod.snd) ∧
      (∀ i, (claimed.filter fun c => c.1 = i).map Prod.snd = s.pushed i) ∧ s.submitted = s.wal ∧
      s.batches.flatten = s.emitted := by
  have ran : (Transition.run (step smallConfig) overtaken (create 2 smallConfig)).map (fun s =>
      decide (s.Exited ∧ s.pushed 0 = [soldOrder] ∧ s.pushed 1 = [boughtOrder] ∧ s.emitted.length = 1)) = some true := by
    decide +kernel
  rcases Option.map_eq_some_iff.mp ran with ⟨s, taken, facts⟩
  rcases of_decide_eq_true facts with ⟨exited, sold, bought, one⟩
  have reach : Reachable (step smallConfig) (create 2 smallConfig) s := Reachable.start.run taken
  exact ⟨s, reach, exited, sold, bought, one, (exactly_once reach).2.2.2 exited⟩

end Server

end Titan
