import Titan.Pipeline.Draining

namespace Titan

open Journaler Sequencer PinNode Transition

namespace Server

variable {n : Nat} {cfg : ServerConfig} {s t u : Server n} {i : Fin n} {P : Server n → Prop}

theorem leads_gateway (taken : s.stepGateway cfg i false = some t) (later : Leads (step cfg) t P) : Leads (step cfg) s P :=
  .next (a := .gateway i false) (e := ()) (by simp only [step, taken, Option.map_some]) later

def GatewayMoved (i : Fin n) (s t : Server n) : Prop :=
  ∃ mpsc gateway, t = { s with mpsc := mpsc, gateways := Function.update s.gateways i gateway } ∧ MpscRing.OthersKept s.mpsc mpsc i

theorem GatewayMoved.trans (first : GatewayMoved i s t) (second : GatewayMoved i t u) : GatewayMoved i s u := by
  rcases first with ⟨mpsc, gateway, rfl, kept⟩
  rcases second with ⟨mpsc', gateway', rfl, kept'⟩
  refine ⟨mpsc', gateway', by simp only [Function.update_idem], kept'.taken.trans kept.taken, kept'.dequeue.trans kept.dequeue,
    kept'.consumer.trans kept.consumer, ?_, ?_⟩
  · intro j other
    exact (kept'.producers j other).trans (kept.producers j other)
  · intro j other
    exact (kept'.calls j other).trans (kept.calls j other)

theorem GatewayMoved.pushed_eq (moved : GatewayMoved i s t) : t.pushed = s.pushed := by
  rcases moved with ⟨_, _, rfl, -⟩
  rfl

structure Returned (cfg : ServerConfig) (i : Fin n) (s t : Server n) : Prop where
  ready : Ready cfg t
  moved : GatewayMoved i s t
  running : t.gateways i = .running

theorem Returned.idle (returned : Returned cfg i s t) : t.mpsc.producers i = .idle := by
  have pushing := returned.ready.inv.pushing i
  rw [returned.running] at pushing
  exact pushing.1

theorem Returned.after (moved : GatewayMoved i s t) (returned : Returned cfg i t u) : Returned cfg i s u :=
  ⟨returned.ready, moved.trans returned.moved, returned.running⟩

theorem pushing_of_busy (inv : Inv cfg s) (busy : s.mpsc.producers i ≠ .idle) : ∃ o, s.gateways i = .pushing o := by
  have pushing := inv.pushing i
  cases gateway : s.gateways i with
  | running | stopped =>
    rw [gateway] at pushing
    exact absurd pushing.1 busy
  | pushing o => exact ⟨o, rfl⟩

theorem step_returns {mpsc : MpscRing (Fin n) Order} {e : MpscRing.Event Order} (ready : Ready cfg s)
    (called : s.mpsc.produce cfg.mpscSize i false = some (mpsc, e)) (unreturned : e ≠ .published true)
    (later : Ready cfg { s with mpsc := mpsc } → Leads (step cfg) { s with mpsc := mpsc } (Returned cfg i { s with mpsc := mpsc })) :
    Leads (step cfg) s (Returned cfg i s) := by
  have busy : s.mpsc.producers i ≠ .idle := by
    intro idle
    simp only [MpscRing.produce, idle] at called
    cases called
  rcases pushing_of_busy ready.inv busy with ⟨o, gateway⟩
  have stepped : MpscRing.step cfg.mpscSize (.producer i false) s.mpsc = some (mpsc, e) := called
  have taken : s.stepGateway cfg i false = some { s with mpsc := mpsc } := by
    simp only [stepGateway, gateway, stepped, Option.map_some]
  have ready' : Ready cfg { s with mpsc := mpsc } :=
    ⟨stepGateway_inv ready.inv taken, MpscRing.produce_claimed cfg.mpscPower ready.inv.mpsc ready.claimed called, ready.fits⟩
  have moved : GatewayMoved i s { s with mpsc := mpsc } :=
    ⟨mpsc, s.gateways i, by rw [Function.update_eq_self], (MpscRing.produce_calls called).2⟩
  exact leads_gateway taken ((later ready').mono fun u returned => returned.after moved)

theorem publish_returns {item : Order} {pos : Nat} (ready : Ready cfg s) (here : s.mpsc.producers i = .publish item pos) :
    Leads (step cfg) s (Returned cfg i s) := by
  rcases pushing_of_busy ready.inv (show s.mpsc.producers i ≠ .idle by simp [here]) with ⟨o, gateway⟩
  have called : s.mpsc.produce cfg.mpscSize i false = some (s.mpsc.publishCell cfg.mpscSize i item pos, .published true) := by
    simp only [MpscRing.produce, here]
  have stepped : MpscRing.step cfg.mpscSize (.producer i false) s.mpsc =
      some (s.mpsc.publishCell cfg.mpscSize i item pos, .published true) := called
  have taken : s.stepGateway cfg i false = some { s with
      mpsc := s.mpsc.publishCell cfg.mpscSize i item pos, gateways := Function.update s.gateways i .running } := by
    simp only [stepGateway, gateway, here, stepped, Option.map_some]
  refine leads_gateway taken (.here ⟨⟨stepGateway_inv ready.inv taken, ?_, ready.fits⟩,
    ⟨_, _, rfl, (MpscRing.produce_calls called).2⟩, Function.update_self ..⟩)
  exact MpscRing.produce_claimed cfg.mpscPower ready.inv.mpsc ready.claimed called

theorem write_returns {item : Order} {pos : Nat} (ready : Ready cfg s) (here : s.mpsc.producers i = .write item pos) :
    Leads (step cfg) s (Returned cfg i s) := by
  have called : s.mpsc.produce cfg.mpscSize i false = some (s.mpsc.writeCell cfg.mpscSize i item pos, .stored pos) := by
    simp only [MpscRing.produce, here]
  exact step_returns ready called (by simp) fun ready' => publish_returns ready' (Function.update_self ..)

theorem claim_returns {pos : Nat} (ready : Ready cfg s) (owned : (s.mpsc.producers i).owned = some pos) :
    Leads (step cfg) s (Returned cfg i s) := by
  cases here : s.mpsc.producers i with
  | idle | load item | check item p | claim item p =>
    rw [here] at owned
    cases owned
  | write item p => exact write_returns ready here
  | publish item p => exact publish_returns ready here

theorem won_returns {item : Order} (ready : Ready cfg s) (here : s.mpsc.producers i = .claim item s.mpsc.enqueue) :
    Leads (step cfg) s (Returned cfg i s) := by
  have called : s.mpsc.produce cfg.mpscSize i false = some (s.mpsc.win i item s.mpsc.enqueue, .silent) := by
    simp only [MpscRing.produce, here, and_self, if_true]
  exact step_returns ready called (by simp) fun ready' => write_returns ready' (Function.update_self ..)

theorem empty_turn (inv : Inv cfg s) (empty : s.mpsc.freed = s.mpsc.enqueue) :
    s.mpsc.seq (slotIndex cfg.mpscSize s.mpsc.enqueue) = s.mpsc.enqueue := by
  have positive := pow_pos_size cfg.mpscPower
  rw [slotIndex_eq_mod cfg.mpscPower]
  rcases inv.mpsc.cell s.mpsc.enqueue (by omega) (by omega) with ⟨turn, -⟩ | ⟨-, below, -⟩
  · exact turn
  · exact absurd below (Nat.lt_irrefl _)

theorem check_returns {item : Order} (ready : Ready cfg s) (empty : s.mpsc.freed = s.mpsc.enqueue)
    (here : s.mpsc.producers i = .check item s.mpsc.enqueue) : Leads (step cfg) s (Returned cfg i s) := by
  have called : s.mpsc.produce cfg.mpscSize i false = some (s.mpsc.setProducer i (.claim item s.mpsc.enqueue), .silent) := by
    simp only [MpscRing.produce, here, empty_turn ready.inv empty, if_true]
  exact step_returns ready called (by simp) fun ready' => won_returns ready' (Function.update_self ..)

theorem load_returns {item : Order} (ready : Ready cfg s) (empty : s.mpsc.freed = s.mpsc.enqueue)
    (here : s.mpsc.producers i = .load item) : Leads (step cfg) s (Returned cfg i s) := by
  have called : s.mpsc.produce cfg.mpscSize i false = some (s.mpsc.setProducer i (.check item s.mpsc.enqueue), .silent) := by
    simp only [MpscRing.produce, here]
  exact step_returns ready called (by simp) fun ready' => check_returns ready' empty (Function.update_self ..)

theorem idle_returns {o : Order} (ready : Ready cfg s) (empty : s.mpsc.freed = s.mpsc.enqueue)
    (gateway : s.gateways i = .pushing o) (here : s.mpsc.producers i = .idle) : Leads (step cfg) s (Returned cfg i s) := by
  have taken : s.stepGateway cfg i false = some { s with mpsc := s.mpsc.setProducer i (.load o) } := by
    simp only [stepGateway, gateway, here, MpscRing.step, Option.map_some]
  have ready' : Ready cfg { s with mpsc := s.mpsc.setProducer i (.load o) } :=
    ⟨stepGateway_inv ready.inv taken, MpscRing.setProducer_claimed ready.claimed (by rw [here]; rfl), ready.fits⟩
  have moved : GatewayMoved i s { s with mpsc := s.mpsc.setProducer i (.load o) } :=
    ⟨_, s.gateways i, by rw [Function.update_eq_self], MpscRing.setProducer_kept ..⟩
  apply leads_gateway taken
  exact (load_returns ready' empty (Function.update_self ..)).mono fun u returned => returned.after moved

theorem stale_claim_returns {item : Order} {pos : Nat} (ready : Ready cfg s) (empty : s.mpsc.freed = s.mpsc.enqueue)
    (here : s.mpsc.producers i = .claim item pos) : Leads (step cfg) s (Returned cfg i s) := by
  by_cases current : s.mpsc.enqueue = pos
  · rw [← current] at here
    exact won_returns ready here
  · have called : s.mpsc.produce cfg.mpscSize i false = some (s.mpsc.setProducer i (.check item s.mpsc.enqueue), .silent) := by
      simp only [MpscRing.produce, here, current, false_and, if_false]
    exact step_returns ready called (by simp) fun ready' => check_returns ready' empty (Function.update_self ..)

theorem stale_check_returns {item : Order} {pos : Nat} (ready : Ready cfg s) (empty : s.mpsc.freed = s.mpsc.enqueue)
    (here : s.mpsc.producers i = .check item pos) : Leads (step cfg) s (Returned cfg i s) := by
  by_cases turn : s.mpsc.seq (slotIndex cfg.mpscSize pos) = pos
  · have called : s.mpsc.produce cfg.mpscSize i false = some (s.mpsc.setProducer i (.claim item pos), .silent) := by
      simp only [MpscRing.produce, here, turn, if_true]
    exact step_returns ready called (by simp) fun ready' => stale_claim_returns ready' empty (Function.update_self ..)
  · rcases pushing_of_busy ready.inv (show s.mpsc.producers i ≠ .idle by simp [here]) with ⟨o, gateway⟩
    by_cases behind : s.mpsc.seq (slotIndex cfg.mpscSize pos) < pos
    · have called : s.mpsc.produce cfg.mpscSize i false = some (s.mpsc.setProducer i .idle, .published false) := by
        simp only [MpscRing.produce, here, turn, if_false, behind, if_true]
      exact step_returns ready called (by simp) fun ready' => idle_returns ready' empty gateway (Function.update_self ..)
    · have called : s.mpsc.produce cfg.mpscSize i false = some (s.mpsc.setProducer i (.load item), .silent) := by
        simp only [MpscRing.produce, here, turn, if_false, behind]
      exact step_returns ready called (by simp) fun ready' => load_returns ready' empty (Function.update_self ..)

/-- On an empty ring, `push` returns wherever it stands. -/
theorem push_returns {o : Order} (ready : Ready cfg s) (empty : s.mpsc.freed = s.mpsc.enqueue)
    (gateway : s.gateways i = .pushing o) : Leads (step cfg) s (Returned cfg i s) := by
  cases here : s.mpsc.producers i with
  | idle => exact idle_returns ready empty gateway here
  | load item => exact load_returns ready empty here
  | check item pos => exact stale_check_returns ready empty here
  | claim item pos => exact stale_claim_returns ready empty here
  | write item pos => exact write_returns ready here
  | publish item pos => exact publish_returns ready here

def claimers (s : Server n) : Finset (Fin n) := Finset.univ.filter fun i => (s.mpsc.producers i).owned ≠ none

def active (s : Server n) : Finset (Fin n) := Finset.univ.filter fun i => s.gateways i ≠ .stopped

theorem card_filter_lt {p q : Fin n → Prop} [DecidablePred p] [DecidablePred q] (inside : p i) (gone : ¬q i)
    (others : ∀ j, j ≠ i → q j → p j) : (Finset.univ.filter q).card < (Finset.univ.filter p).card := by
  apply Finset.card_lt_card
  refine Finset.ssubset_iff_subset_ne.mpr ⟨?_, ?_⟩
  · intro j member
    rw [Finset.mem_filter] at member ⊢
    refine ⟨Finset.mem_univ j, ?_⟩
    by_cases here : j = i
    · rw [here]
      exact inside
    · exact others j here member.2
  · intro same
    have member : i ∈ Finset.univ.filter p := Finset.mem_filter.mpr ⟨Finset.mem_univ i, inside⟩
    rw [← same, Finset.mem_filter] at member
    exact gone member.2

theorem Returned.claimers_lt (returned : Returned cfg i s t) (owned : (s.mpsc.producers i).owned ≠ none) :
    (claimers t).card < (claimers s).card := by
  have idle := returned.idle
  rcases returned.moved with ⟨mpsc, gateway, rfl, kept⟩
  apply card_filter_lt owned
  · rw [idle]
    exact not_not.mpr rfl
  · intro j other held
    rw [← kept.producers j other]
    exact held

theorem claims_return (ready : Ready cfg s) :
    Leads (step cfg) s fun t => Ready cfg t ∧ Unclaimed t ∧ t.pushed = s.pushed := by
  apply Leads.variant (I := fun t => Ready cfg t ∧ t.pushed = s.pushed) fun t => (claimers t).card
  · rintro t ⟨ready, same⟩
    by_cases free : Unclaimed t
    · exact .here (.inl ⟨ready, free, same⟩)
    · rcases not_forall.mp free with ⟨i, owned⟩
      rcases Option.ne_none_iff_exists'.mp owned with ⟨pos, held⟩
      apply (claim_returns ready held).mono
      intro u returned
      exact .inr ⟨⟨returned.ready, returned.moved.pushed_eq.trans same⟩, returned.claimers_lt owned⟩
  · exact ⟨ready, rfl⟩

theorem stop_leads (ready : Ready cfg s) (free : Unclaimed s) (running : s.gateways i = .running) :
    Leads (step cfg) s fun t => (Ready cfg t ∧ Unclaimed t ∧ t.pushed = s.pushed) ∧ (active t).card < (active s).card := by
  have taken : s.stopGateway i = some { s with gateways := Function.update s.gateways i .stopped } := by
    simp only [stopGateway, running]
  refine .next (a := .stop i) (e := ()) (by simp only [step, taken, Option.map_some]) (.here ⟨⟨⟨stopGateway_inv ready.inv taken,
    ready.claimed, ready.fits⟩, free, rfl⟩, ?_⟩)
  apply card_filter_lt (i := i) (by simp [running]) (by simp)
  intro j other held
  simp only [Function.update_of_ne other] at held
  exact held

theorem Returned.unclaimed (returned : Returned cfg i s t) (free : Unclaimed s) : Unclaimed t := by
  have idle := returned.idle
  rcases returned.moved with ⟨mpsc, gateway, rfl, kept⟩
  intro j
  by_cases here : j = i
  · rw [here, idle]
    rfl
  · simp only [kept.producers j here]
    exact free j

theorem Returned.active_eq (returned : Returned cfg i s t) (busy : s.gateways i ≠ .stopped) : active t = active s := by
  have running := returned.running
  rcases returned.moved with ⟨mpsc, gateway, rfl, kept⟩
  apply Finset.filter_congr
  intro j _
  by_cases here : j = i
  · rw [here, running]
    simp [busy]
  · simp only [Function.update_of_ne here]

theorem gateways_stop (small : cfg.maxNodes * CAPACITY < 2 ^ 32) (ready : Ready cfg s) (free : Unclaimed s) :
    Leads (step cfg) s fun t => Ready cfg t ∧ (∀ i, t.gateways i = .stopped) ∧ t.pushed = s.pushed := by
  apply Leads.variant (I := fun t => Ready cfg t ∧ Unclaimed t ∧ t.pushed = s.pushed) fun t => (active t).card
  · rintro t ⟨ready, free, same⟩
    by_cases all : ∀ i, t.gateways i = .stopped
    · exact .here (.inl ⟨ready, all, same⟩)
    · rcases not_forall.mp all with ⟨i, busy⟩
      cases here : t.gateways i with
      | stopped => exact absurd here busy
      | running =>
        apply (stop_leads ready free here).mono
        rintro u ⟨⟨ready', free', same'⟩, less⟩
        exact .inr ⟨⟨ready', free', same'.trans same⟩, less⟩
      | pushing o =>
        have open_ : t.gatewayStopped = false := Bool.eq_false_iff.mpr (ready.inv.not_stopped busy)
        apply (sequencer_drains small ready free open_).trans
        rintro u ⟨ready', moved, checks, level⟩
        have kept : u.gateways = t.gateways ∧ u.pushed = t.pushed := by
          rcases moved with ⟨_, _, _, _, _, _, _, _, _, _, _, _, _, rfl, -⟩
          exact ⟨rfl, rfl⟩
        have empty : u.mpsc.freed = u.mpsc.enqueue := by
          have sequencing := ready'.inv.sequencing
          rw [checks] at sequencing
          have consuming := ready'.inv.mpsc.consuming
          rw [sequencing.1] at consuming
          rw [← consuming.1, level]
        have there : u.gateways i = .pushing o := by rw [kept.1, here]
        apply (push_returns ready' empty there).trans
        intro v returned
        apply (stop_leads returned.ready (returned.unclaimed (moved.unclaimed free)) returned.running).mono
        rintro w ⟨⟨ready'', free'', same'⟩, less⟩
        have before : active v = active t := by
          rw [returned.active_eq (by simp [there]), active, active, kept.1]
        rw [before] at less
        exact .inr ⟨⟨ready'', free'', by rw [same', returned.moved.pushed_eq, kept.2, same]⟩, less⟩
  · exact ⟨ready, free, rfl⟩

structure Flagged (s : Server n) : Prop where
  sequenced : s.sequencer = .exited → s.sequencerDone = true
  matched : s.matcher = .exited → s.matcherDone = true

theorem stepGateway_keeps {spurious : Bool} (taken : s.stepGateway cfg i spurious = some t) :
    t.sequencer = s.sequencer ∧ t.sequencerDone = s.sequencerDone ∧ t.matcher = s.matcher ∧ t.matcherDone = s.matcherDone ∧
      ∃ a e, MpscRing.step cfg.mpscSize a s.mpsc = some (t.mpsc, e) := by
  unfold stepGateway at taken
  split at taken
  · split at taken
    · rcases Option.map_eq_some_iff.mp taken with ⟨r, called, rfl⟩
      exact ⟨rfl, rfl, rfl, rfl, _, _, called⟩
    · rcases Option.map_eq_some_iff.mp taken with ⟨r, called, rfl⟩
      split <;> exact ⟨rfl, rfl, rfl, rfl, _, _, called⟩
  · cases taken

theorem stepSequencer_keeps (taken : s.stepSequencer cfg = some t) :
    (t.sequencer = .exited → t.sequencerDone = true) ∧ t.matcher = s.matcher ∧ t.matcherDone = s.matcherDone ∧
      (t.mpsc = s.mpsc ∨ ∃ a e, MpscRing.step cfg.mpscSize a s.mpsc = some (t.mpsc, e)) := by
  have drains {t : Server n} (taken : s.drainMpsc cfg = some t) :
      (t.sequencer = .exited → t.sequencerDone = true) ∧ t.matcher = s.matcher ∧ t.matcherDone = s.matcherDone ∧
        (t.mpsc = s.mpsc ∨ ∃ a e, MpscRing.step cfg.mpscSize a s.mpsc = some (t.mpsc, e)) := by
    rcases Option.map_eq_some_iff.mp taken with ⟨r, called, rfl⟩
    exact ⟨by simp, rfl, rfl, .inr ⟨_, _, called⟩⟩
  cases here : s.sequencer with
  | check =>
    simp only [stepSequencer, here] at taken
    split at taken
    · cases taken
      exact ⟨by simp, rfl, rfl, .inl rfl⟩
    · exact drains taken
  | loadEnqueue =>
    simp only [stepSequencer, here] at taken
    cases taken
    exact ⟨by simp, rfl, rfl, .inl rfl⟩
  | loadDequeue e =>
    simp only [stepSequencer, here] at taken
    split at taken
    · cases taken
      exact ⟨by simp, rfl, rfl, .inl rfl⟩
    · exact drains taken
  | drain =>
    simp only [stepSequencer, here] at taken
    rcases Option.map_eq_some_iff.mp taken with ⟨r, called, rfl⟩
    split <;> exact ⟨by simp, rfl, rfl, .inr ⟨_, _, called⟩⟩
  | journal o =>
    simp only [stepSequencer, here] at taken
    split at taken <;> cases taken
    exact ⟨by simp, rfl, rfl, .inl rfl⟩
  | push o =>
    simp only [stepSequencer, here] at taken
    split at taken
    · rcases Option.map_eq_some_iff.mp taken with ⟨r, -, rfl⟩
      exact ⟨by simp, rfl, rfl, .inl rfl⟩
    · rcases Option.map_eq_some_iff.mp taken with ⟨r, -, rfl⟩
      split <;> exact ⟨by simp, rfl, rfl, .inl rfl⟩
  | flush =>
    simp only [stepSequencer, here] at taken
    cases taken
    exact ⟨by simp, rfl, rfl, .inl rfl⟩
  | done =>
    simp only [stepSequencer, here] at taken
    cases taken
    exact ⟨fun _ => rfl, rfl, rfl, .inl rfl⟩
  | exited =>
    simp only [stepSequencer, here] at taken
    cases taken

theorem stepMatcher_keeps (taken : s.stepMatcher cfg = some t) :
    (t.matcher = .exited → t.matcherDone = true) ∧ t.sequencer = s.sequencer ∧ t.sequencerDone = s.sequencerDone ∧
      t.mpsc = s.mpsc := by
  have drains {t : Server n} (taken : s.drainIngress cfg = some t) : (t.matcher = .exited → t.matcherDone = true) ∧
      t.sequencer = s.sequencer ∧ t.sequencerDone = s.sequencerDone ∧ t.mpsc = s.mpsc := by
    rcases Option.map_eq_some_iff.mp taken with ⟨r, -, rfl⟩
    exact ⟨by simp, rfl, rfl, rfl⟩
  have publishes {u t : Server n} {pc : MatcherPc} (active : pc ≠ .exited) (taken : u.publishBuf cfg pc = some t)
      (same : u.sequencer = s.sequencer ∧ u.sequencerDone = s.sequencerDone ∧ u.mpsc = s.mpsc) :
      (t.matcher = .exited → t.matcherDone = true) ∧ t.sequencer = s.sequencer ∧ t.sequencerDone = s.sequencerDone ∧
        t.mpsc = s.mpsc := by
    rcases Option.map_eq_some_iff.mp taken with ⟨r, -, rfl⟩
    exact ⟨fun exited => absurd exited active, same⟩
  have goes {t : Server n} {pc : MatcherPc} (active : pc ≠ .exited) (active' : s.matcher ≠ .exited)
      (taken : s.stepPublish cfg pc = some t) : (t.matcher = .exited → t.matcherDone = true) ∧
      t.sequencer = s.sequencer ∧ t.sequencerDone = s.sequencerDone ∧ t.mpsc = s.mpsc := by
    rcases Option.map_eq_some_iff.mp taken with ⟨r, -, rfl⟩
    split
    · exact ⟨fun exited => absurd exited active, rfl, rfl, rfl⟩
    · exact ⟨fun exited => absurd exited active', rfl, rfl, rfl⟩
  cases here : s.matcher with
  | check | loadNext c =>
    simp only [stepMatcher, here] at taken
    split at taken
    · cases taken
      exact ⟨by simp, rfl, rfl, rfl⟩
    · exact drains taken
  | loadCursor =>
    simp only [stepMatcher, here] at taken
    cases taken
    exact ⟨by simp, rfl, rfl, rfl⟩
  | drain =>
    simp only [stepMatcher, here] at taken
    rcases Option.map_eq_some_iff.mp taken with ⟨r, -, rfl⟩
    split <;> exact ⟨by simp, rfl, rfl, rfl⟩
  | submit o =>
    simp only [stepMatcher, here] at taken
    rcases Option.map_eq_some_iff.mp taken with ⟨r, -, rfl⟩
    exact ⟨by simp, rfl, rfl, rfl⟩
  | emit events =>
    cases events with
    | nil =>
      simp only [stepMatcher, here] at taken
      cases taken
      exact ⟨by simp, rfl, rfl, rfl⟩
    | cons event rest =>
      simp only [stepMatcher, here] at taken
      split at taken
      · exact publishes (by simp) taken ⟨rfl, rfl, rfl⟩
      · cases taken
        exact ⟨by simp, rfl, rfl, rfl⟩
  | publish rest =>
    simp only [stepMatcher, here] at taken
    exact goes (by simp) (by simp [here]) taken
  | flush =>
    simp only [stepMatcher, here] at taken
    split at taken
    · exact publishes (by simp) taken ⟨rfl, rfl, rfl⟩
    · cases taken
      exact ⟨by simp, rfl, rfl, rfl⟩
  | flushing =>
    simp only [stepMatcher, here] at taken
    exact goes (by simp) (by simp [here]) taken
  | done =>
    simp only [stepMatcher, here] at taken
    cases taken
    exact ⟨fun _ => rfl, rfl, rfl, rfl⟩
  | exited =>
    simp only [stepMatcher, here] at taken
    cases taken

theorem stepPublisher_keeps (taken : s.stepPublisher cfg = some t) :
    t.sequencer = s.sequencer ∧ t.sequencerDone = s.sequencerDone ∧ t.matcher = s.matcher ∧ t.matcherDone = s.matcherDone ∧
      t.mpsc = s.mpsc := by
  have drains {t : Server n} (taken : s.drainEgress cfg = some t) : t.sequencer = s.sequencer ∧
      t.sequencerDone = s.sequencerDone ∧ t.matcher = s.matcher ∧ t.matcherDone = s.matcherDone ∧ t.mpsc = s.mpsc := by
    rcases Option.map_eq_some_iff.mp taken with ⟨r, -, rfl⟩
    exact ⟨rfl, rfl, rfl, rfl, rfl⟩
  have flushes (u : Server n) : u.flushBatch.sequencer = u.sequencer ∧ u.flushBatch.sequencerDone = u.sequencerDone ∧
      u.flushBatch.matcher = u.matcher ∧ u.flushBatch.matcherDone = u.matcherDone ∧ u.flushBatch.mpsc = u.mpsc := by
    rcases flushBatch_eq u with ⟨batches, flushed, -⟩
    rw [flushed]
    exact ⟨rfl, rfl, rfl, rfl, rfl⟩
  cases here : s.publisher with
  | check | loadNext c =>
    simp only [stepPublisher, here] at taken
    split at taken
    · cases taken
      exact ⟨rfl, rfl, rfl, rfl, rfl⟩
    · exact drains taken
  | loadCursor =>
    simp only [stepPublisher, here] at taken
    cases taken
    exact ⟨rfl, rfl, rfl, rfl, rfl⟩
  | drain =>
    simp only [stepPublisher, here] at taken
    rcases Option.map_eq_some_iff.mp taken with ⟨r, -, rfl⟩
    split
    · split
      · exact flushes _
      · exact ⟨rfl, rfl, rfl, rfl, rfl⟩
    · exact ⟨rfl, rfl, rfl, rfl, rfl⟩
    · exact ⟨rfl, rfl, rfl, rfl, rfl⟩
  | flush | last =>
    simp only [stepPublisher, here] at taken
    cases taken
    exact flushes s
  | exited =>
    simp only [stepPublisher, here] at taken
    cases taken

structure Live (cfg : ServerConfig) (s : Server n) : Prop where
  inv : Inv cfg s
  claimed : MpscRing.Claimed cfg.mpscSize s.mpsc
  flagged : Flagged s

theorem step_live {a : Action n} {e : Unit} (live : Live cfg s) (taken : step cfg a s = some (t, e)) : Live cfg t := by
  have inv := step_inv live.inv taken
  unfold step at taken
  rcases Option.map_eq_some_iff.mp taken with ⟨next, moved, eq⟩
  cases eq
  cases a with
  | push i o =>
    simp only [startPush] at moved
    split at moved <;> cases moved
    exact ⟨inv, live.claimed, live.flagged.sequenced, live.flagged.matched⟩
  | gateway i spurious =>
    rcases stepGateway_keeps moved with ⟨sequencer, sequencerDone, matcher, matcherDone, a, e, called⟩
    refine ⟨inv, MpscRing.step_claimed cfg.mpscPower live.inv.mpsc live.claimed called, ?_, ?_⟩
    · rw [sequencer, sequencerDone]
      exact live.flagged.sequenced
    · rw [matcher, matcherDone]
      exact live.flagged.matched
  | stop i =>
    simp only [stopGateway] at moved
    split at moved <;> cases moved
    exact ⟨inv, live.claimed, live.flagged.sequenced, live.flagged.matched⟩
  | join =>
    simp only [joinGateways] at moved
    split at moved <;> cases moved
    exact ⟨inv, live.claimed, live.flagged.sequenced, live.flagged.matched⟩
  | sequencer =>
    rcases stepSequencer_keeps moved with ⟨sequenced, matcher, matcherDone, ring⟩
    refine ⟨inv, ?_, sequenced, by rw [matcher, matcherDone]; exact live.flagged.matched⟩
    rcases ring with same | ⟨a, e, called⟩
    · rw [same]
      exact live.claimed
    · exact MpscRing.step_claimed cfg.mpscPower live.inv.mpsc live.claimed called
  | matcher =>
    rcases stepMatcher_keeps moved with ⟨matched, sequencer, sequencerDone, ring⟩
    exact ⟨inv, by rw [ring]; exact live.claimed, by rw [sequencer, sequencerDone]; exact live.flagged.sequenced, matched⟩
  | publisher =>
    rcases stepPublisher_keeps moved with ⟨sequencer, sequencerDone, matcher, matcherDone, ring⟩
    refine ⟨inv, by rw [ring]; exact live.claimed, ?_, ?_⟩
    · rw [sequencer, sequencerDone]
      exact live.flagged.sequenced
    · rw [matcher, matcherDone]
      exact live.flagged.matched

theorem reachable_live (reach : Reachable (step cfg) (create n cfg) s) : Live cfg s := by
  refine reach.invariant ⟨create_inv n cfg, MpscRing.create_claimed _ _, ?_, ?_⟩ fun _ _ _ _ live taken => step_live live taken
  · intro exited
    cases exited
  · intro exited
    cases exited

/-- The gateways have been joined, and the server is on its way down with what `s` was given. -/
structure Joined (s t : Server n) : Prop where
  stopped : ∀ i, t.gateways i = .stopped
  flag : t.gatewayStopped = true
  pushed : t.pushed = s.pushed

theorem SequencerMoved.joined (moved : SequencerMoved t u) (joined : Joined s t) : Joined s u := by
  rcases moved with ⟨_, _, _, _, _, _, _, _, _, _, _, _, _, rfl, -⟩
  exact ⟨joined.stopped, joined.flag, joined.pushed⟩

theorem joined_unclaimed (ready : Ready cfg t) (joined : Joined s t) : Unclaimed t := by
  intro i
  have pushing := ready.inv.pushing i
  rw [joined.stopped i] at pushing
  rw [pushing.1]
  rfl

theorem sequencer_flushes (ready : Ready cfg t) (joined : Joined s t) (here : t.sequencer = .flush) :
    Leads (step cfg) t fun u => Ready cfg u ∧ Joined s u ∧ u.sequencer = .exited := by
  have taken : t.stepSequencer cfg = some { t with
      seq := { t.seq with journal := t.seq.journal.flushSync cfg.pg }, sequencer := .done } := by
    simp only [stepSequencer, here]
  have inv := stepSequencer_inv ready.inv taken
  apply leads_sequencer taken
  have taken' : stepSequencer cfg { t with
      seq := { t.seq with journal := t.seq.journal.flushSync cfg.pg }, sequencer := .done } = some { t with
      seq := { t.seq with journal := t.seq.journal.flushSync cfg.pg }, sequencerDone := true, sequencer := .exited } := rfl
  apply leads_sequencer taken'
  exact .here ⟨⟨stepSequencer_inv inv taken', ready.claimed, ready.fits⟩, ⟨joined.stopped, joined.flag, joined.pushed⟩, rfl⟩

theorem sequencer_level (ready : Ready cfg t) (joined : Joined s t) (here : t.sequencer = .check)
    (level : t.mpsc.dequeue = t.mpsc.enqueue) :
    Leads (step cfg) t fun u => Ready cfg u ∧ Joined s u ∧ u.sequencer = .exited := by
  have taken : t.stepSequencer cfg = some { t with sequencer := .loadEnqueue } := by
    simp only [stepSequencer, here, joined.flag, if_true]
  have inv := stepSequencer_inv ready.inv taken
  apply leads_sequencer taken
  have taken' : stepSequencer cfg { t with sequencer := .loadEnqueue } = some { t with sequencer := .loadDequeue t.mpsc.enqueue } := rfl
  have inv' := stepSequencer_inv inv taken'
  apply leads_sequencer taken'
  have taken'' : stepSequencer cfg { t with sequencer := .loadDequeue t.mpsc.enqueue } = some { t with sequencer := .flush } := by
    simp only [stepSequencer, level, if_true]
  apply leads_sequencer taken''
  exact sequencer_flushes ⟨stepSequencer_inv inv' taken'', ready.claimed, ready.fits⟩
    ⟨joined.stopped, joined.flag, joined.pushed⟩ rfl

theorem sequencer_last (small : cfg.maxNodes * CAPACITY < 2 ^ 32) (ready : Ready cfg t) (joined : Joined s t)
    (here : t.sequencer = .drain) (fresh : MpscRing.Fresh t.mpsc) :
    Leads (step cfg) t fun u => Ready cfg u ∧ Joined s u ∧ u.sequencer = .exited := by
  apply (sequence_leads True small ready here (fun _ => joined_unclaimed ready joined) fun _ => fresh).trans
  rintro u ⟨ready', moved, back, level⟩
  exact sequencer_level ready' (moved.joined joined) back (level trivial)

theorem sequencer_loaded {e : Nat} (small : cfg.maxNodes * CAPACITY < 2 ^ 32) (ready : Ready cfg t) (joined : Joined s t)
    (here : t.sequencer = .loadDequeue e) :
    Leads (step cfg) t fun u => Ready cfg u ∧ Joined s u ∧ u.sequencer = .exited := by
  have sequencing := ready.inv.sequencing
  rw [here] at sequencing
  by_cases level : e = t.mpsc.dequeue
  · have taken : t.stepSequencer cfg = some { t with sequencer := .flush } := by
      simp only [stepSequencer, here, level, if_true]
    apply leads_sequencer taken
    exact sequencer_flushes ⟨stepSequencer_inv ready.inv taken, ready.claimed, ready.fits⟩
      ⟨joined.stopped, joined.flag, joined.pushed⟩ rfl
  · have taken : t.stepSequencer cfg = some { t with mpsc := { t.mpsc with consumer := .drain }, sequencer := .drain } := by
      simp [stepSequencer, here, level, drainMpsc, MpscRing.step, sequencing.2.2.1]
    apply leads_sequencer taken
    exact sequencer_last small ⟨stepSequencer_inv ready.inv taken, ready.claimed, ready.fits⟩
      ⟨joined.stopped, joined.flag, joined.pushed⟩ rfl rfl

theorem sequencer_enqueue (small : cfg.maxNodes * CAPACITY < 2 ^ 32) (ready : Ready cfg t) (joined : Joined s t)
    (here : t.sequencer = .loadEnqueue) :
    Leads (step cfg) t fun u => Ready cfg u ∧ Joined s u ∧ u.sequencer = .exited := by
  have taken : t.stepSequencer cfg = some { t with sequencer := .loadDequeue t.mpsc.enqueue } := by
    simp only [stepSequencer, here]
  apply leads_sequencer taken
  exact sequencer_loaded small ⟨stepSequencer_inv ready.inv taken, ready.claimed, ready.fits⟩
    ⟨joined.stopped, joined.flag, joined.pushed⟩ rfl

/-- Once the gateways are joined, the sequencer empties its ring, syncs the log and returns. -/
theorem sequencer_exits (small : cfg.maxNodes * CAPACITY < 2 ^ 32) (ready : Ready cfg t) (joined : Joined s t) :
    Leads (step cfg) t fun u => Ready cfg u ∧ Joined s u ∧ u.sequencer = .exited := by
  by_cases looping : t.sequencer.looping = true
  · apply (sequencer_checks small ready looping).trans
    rintro u ⟨ready', moved, back⟩
    have joined' := moved.joined joined
    have taken : u.stepSequencer cfg = some { u with sequencer := .loadEnqueue } := by
      simp only [stepSequencer, back, joined'.flag, if_true]
    apply leads_sequencer taken
    exact sequencer_enqueue small ⟨stepSequencer_inv ready'.inv taken, ready'.claimed, ready'.fits⟩
      ⟨joined'.stopped, joined'.flag, joined'.pushed⟩ rfl
  · cases here : t.sequencer with
    | check | drain | journal o | push o =>
      rw [here] at looping
      exact absurd rfl looping
    | loadEnqueue => exact sequencer_enqueue small ready joined here
    | loadDequeue e => exact sequencer_loaded small ready joined here
    | flush => exact sequencer_flushes ready joined here
    | done =>
      have taken : t.stepSequencer cfg = some { t with sequencerDone := true, sequencer := .exited } := by
        simp only [stepSequencer, here]
      apply leads_sequencer taken
      exact .here ⟨⟨stepSequencer_inv ready.inv taken, ready.claimed, ready.fits⟩,
        ⟨joined.stopped, joined.flag, joined.pushed⟩, rfl⟩
    | exited => exact .here ⟨ready, joined, here⟩

structure Sequenced (s t : Server n) : Prop extends Joined s t where
  sequencer : t.sequencer = .exited
  done : t.sequencerDone = true

theorem MatcherMoved.sequenced (moved : MatcherMoved t u) (sequenced : Sequenced s t) : Sequenced s u := by
  rcases moved with ⟨_, _, _, _, _, _, _, _, _, _, rfl, -⟩
  exact ⟨⟨sequenced.stopped, sequenced.flag, sequenced.pushed⟩, sequenced.sequencer, sequenced.done⟩

theorem matcher_done (inv : Inv cfg t) (sequenced : Sequenced s t) (here : t.matcher = .done) :
    Leads (step cfg) t fun u => Inv cfg u ∧ Sequenced s u ∧ u.matcher = .exited := by
  have taken : t.stepMatcher cfg = some { t with matcherDone := true, matcher := .exited } := by
    simp only [stepMatcher, here]
  apply leads_matcher taken
  exact .here ⟨stepMatcher_inv inv taken, ⟨⟨sequenced.stopped, sequenced.flag, sequenced.pushed⟩, sequenced.sequencer,
    sequenced.done⟩, rfl⟩

theorem matcher_level (inv : Inv cfg t) (sequenced : Sequenced s t) (here : t.matcher = .check)
    (level : t.ingress.next = t.ingress.cursor) :
    Leads (step cfg) t fun u => Inv cfg u ∧ Sequenced s u ∧ u.matcher = .exited := by
  have taken : t.stepMatcher cfg = some { t with matcher := .loadCursor } := by
    simp only [stepMatcher, here, sequenced.done, if_true]
  have inv' := stepMatcher_inv inv taken
  apply leads_matcher taken
  have taken' : stepMatcher cfg { t with matcher := .loadCursor } = some { t with matcher := .loadNext t.ingress.cursor } := rfl
  have inv'' := stepMatcher_inv inv' taken'
  apply leads_matcher taken'
  have taken'' : stepMatcher cfg { t with matcher := .loadNext t.ingress.cursor } = some { t with matcher := .done } := by
    simp only [stepMatcher, level, if_true]
  apply leads_matcher taken''
  exact matcher_done (stepMatcher_inv inv'' taken'')
    ⟨⟨sequenced.stopped, sequenced.flag, sequenced.pushed⟩, sequenced.sequencer, sequenced.done⟩ rfl

theorem matcher_loaded {c : Nat} (small : cfg.maxNodes * CAPACITY < 2 ^ 32) (inv : Inv cfg t) (sequenced : Sequenced s t)
    (here : t.matcher = .loadNext c) :
    Leads (step cfg) t fun u => Inv cfg u ∧ Sequenced s u ∧ u.matcher = .exited := by
  have matching := inv.matching
  rw [here] at matching
  have kept : ∀ {ingress : SpscRing Order} {pc : MatcherPc}, Sequenced s { t with ingress := ingress, matcher := pc } :=
    ⟨⟨sequenced.stopped, sequenced.flag, sequenced.pushed⟩, sequenced.sequencer, sequenced.done⟩
  by_cases level : c = t.ingress.next
  · have taken : t.stepMatcher cfg = some { t with matcher := .done } := by
      simp only [stepMatcher, here, level, if_true]
    exact leads_matcher taken (matcher_done (stepMatcher_inv inv taken) kept rfl)
  · have taken : t.stepMatcher cfg = some { t with ingress := { t.ingress with consumer := .drain }, matcher := .drain } := by
      simp [stepMatcher, here, level, drainIngress, SpscRing.step, matching.2.2.1]
    apply leads_matcher taken
    apply (drain_leads True small (stepMatcher_inv inv taken) rfl fun _ => trivial).trans
    rintro u ⟨inv', moved, back, level'⟩
    exact matcher_level inv' (moved.sequenced kept) back (level' trivial)

theorem matcher_cursor (small : cfg.maxNodes * CAPACITY < 2 ^ 32) (inv : Inv cfg t) (sequenced : Sequenced s t)
    (here : t.matcher = .loadCursor) :
    Leads (step cfg) t fun u => Inv cfg u ∧ Sequenced s u ∧ u.matcher = .exited := by
  have taken : t.stepMatcher cfg = some { t with matcher := .loadNext t.ingress.cursor } := by
    simp only [stepMatcher, here]
  apply leads_matcher taken
  exact matcher_loaded small (stepMatcher_inv inv taken)
    ⟨⟨sequenced.stopped, sequenced.flag, sequenced.pushed⟩, sequenced.sequencer, sequenced.done⟩ rfl

theorem matcher_exits (small : cfg.maxNodes * CAPACITY < 2 ^ 32) (inv : Inv cfg t) (sequenced : Sequenced s t) :
    Leads (step cfg) t fun u => Inv cfg u ∧ Sequenced s u ∧ u.matcher = .exited := by
  by_cases looping : t.matcher.looping = true
  · apply (matcher_checks small inv looping).trans
    rintro u ⟨inv', moved, back⟩
    have sequenced' := moved.sequenced sequenced
    have taken : u.stepMatcher cfg = some { u with matcher := .loadCursor } := by
      simp only [stepMatcher, back, sequenced'.done, if_true]
    apply leads_matcher taken
    exact matcher_cursor small (stepMatcher_inv inv' taken)
      ⟨⟨sequenced'.stopped, sequenced'.flag, sequenced'.pushed⟩, sequenced'.sequencer, sequenced'.done⟩ rfl
  · cases here : t.matcher with
    | check | drain | submit o | emit rest | publish rest | flush | flushing =>
      rw [here] at looping
      exact absurd rfl looping
    | loadCursor => exact matcher_cursor small inv sequenced here
    | loadNext c => exact matcher_loaded small inv sequenced here
    | done => exact matcher_done inv sequenced here
    | exited => exact .here ⟨inv, sequenced, here⟩

structure Matched (s t : Server n) : Prop extends Sequenced s t where
  matcher : t.matcher = .exited
  finished : t.matcherDone = true

theorem PublisherMoved.matched (moved : PublisherMoved t u) (matched : Matched s t) : Matched s u := by
  rcases moved with ⟨_, _, _, _, rfl, -⟩
  exact ⟨⟨⟨matched.stopped, matched.flag, matched.pushed⟩, matched.sequencer, matched.done⟩, matched.matcher, matched.finished⟩

theorem publisher_last (inv : Inv cfg t) (matched : Matched s t) (here : t.publisher = .last) :
    Leads (step cfg) t fun u => Inv cfg u ∧ Matched s u ∧ u.publisher = .exited := by
  have taken : t.stepPublisher cfg = some { t.flushBatch with publisher := .exited } := by
    simp only [stepPublisher, here]
  apply leads_publisher taken
  exact .here ⟨stepPublisher_inv inv taken, (flushBatch_moved t .exited).matched matched, rfl⟩

theorem publisher_level (inv : Inv cfg t) (matched : Matched s t) (here : t.publisher = .check)
    (level : t.egress.next = t.egress.cursor) :
    Leads (step cfg) t fun u => Inv cfg u ∧ Matched s u ∧ u.publisher = .exited := by
  have taken : t.stepPublisher cfg = some { t with publisher := .loadCursor } := by
    simp only [stepPublisher, here, matched.finished, if_true]
  have inv' := stepPublisher_inv inv taken
  apply leads_publisher taken
  have taken' : stepPublisher cfg { t with publisher := .loadCursor } = some { t with publisher := .loadNext t.egress.cursor } := rfl
  have inv'' := stepPublisher_inv inv' taken'
  apply leads_publisher taken'
  have taken'' : stepPublisher cfg { t with publisher := .loadNext t.egress.cursor } = some { t with publisher := .last } := by
    simp only [stepPublisher, level, if_true]
  apply leads_publisher taken''
  have moved : PublisherMoved t { t with publisher := .last } := ⟨_, _, _, _, rfl, .refl _⟩
  exact publisher_last (stepPublisher_inv inv'' taken'') (moved.matched matched) rfl

theorem publisher_loaded {c : Nat} (inv : Inv cfg t) (matched : Matched s t) (here : t.publisher = .loadNext c) :
    Leads (step cfg) t fun u => Inv cfg u ∧ Matched s u ∧ u.publisher = .exited := by
  have publishing := inv.publishing
  rw [here] at publishing
  by_cases level : c = t.egress.next
  · have taken : t.stepPublisher cfg = some { t with publisher := .last } := by
      simp only [stepPublisher, here, level, if_true]
    have moved : PublisherMoved t { t with publisher := .last } := ⟨_, _, _, _, rfl, .refl _⟩
    exact leads_publisher taken (publisher_last (stepPublisher_inv inv taken) (moved.matched matched) rfl)
  · have taken : t.stepPublisher cfg = some { t with egress := { t.egress with consumer := .drain }, publisher := .drain } := by
      simp [stepPublisher, here, level, drainEgress, SpscRing.step, publishing.2.2.1]
    have first : PublisherMoved t { t with egress := { t.egress with consumer := .drain }, publisher := .drain } :=
      ⟨_, _, _, _, rfl, rfl, rfl, rfl, rfl⟩
    have drain : Draining True { t with egress := { t.egress with consumer := .drain }, publisher := .drain } := fun _ => trivial
    apply leads_publisher taken
    apply (publisher_returns True (stepPublisher_inv inv taken) drain).trans
    rintro u ⟨inv', moved, back, level'⟩
    exact publisher_level inv' ((first.trans moved).matched matched) back (level' trivial)

theorem publisher_cursor (inv : Inv cfg t) (matched : Matched s t) (here : t.publisher = .loadCursor) :
    Leads (step cfg) t fun u => Inv cfg u ∧ Matched s u ∧ u.publisher = .exited := by
  have taken : t.stepPublisher cfg = some { t with publisher := .loadNext t.egress.cursor } := by
    simp only [stepPublisher, here]
  have moved : PublisherMoved t { t with publisher := .loadNext t.egress.cursor } := ⟨_, _, _, _, rfl, .refl _⟩
  exact leads_publisher taken (publisher_loaded (stepPublisher_inv inv taken) (moved.matched matched) rfl)

theorem publisher_exits (inv : Inv cfg t) (matched : Matched s t) :
    Leads (step cfg) t fun u => Inv cfg u ∧ Matched s u ∧ u.publisher = .exited := by
  have looped : Draining False t → Leads (step cfg) t fun u => Inv cfg u ∧ Matched s u ∧ u.publisher = .exited := by
    intro draining
    apply (publisher_returns False inv draining).trans
    rintro u ⟨inv', moved, back, -⟩
    have matched' := moved.matched matched
    have taken : u.stepPublisher cfg = some { u with publisher := .loadCursor } := by
      simp only [stepPublisher, back, matched'.finished, if_true]
    have first : PublisherMoved u { u with publisher := .loadCursor } := ⟨_, _, _, _, rfl, .refl _⟩
    exact leads_publisher taken (publisher_cursor (stepPublisher_inv inv' taken) (first.matched matched') rfl)
  cases here : t.publisher with
  | check | drain | flush =>
    apply looped
    rw [Draining, here]
    exact False.elim
  | loadCursor => exact publisher_cursor inv matched here
  | loadNext c => exact publisher_loaded inv matched here
  | last => exact publisher_last inv matched here
  | exited => exact .here ⟨inv, matched, here⟩

theorem gateways_joined (ready : Ready cfg t) (stopped : ∀ i, t.gateways i = .stopped) (pushed : t.pushed = s.pushed) :
    Leads (step cfg) t fun u => Ready cfg u ∧ Joined s u := by
  have taken : t.joinGateways = some { t with gatewayStopped := true } := by
    rw [joinGateways, if_pos stopped]
  refine .next (a := .join) (e := ()) (by simp only [step, taken, Option.map_some]) (.here ⟨⟨joinGateways_inv ready.inv taken,
    ready.claimed, ready.fits⟩, stopped, rfl, pushed⟩)

/-- The cascade runs down from every state in which no order holds a gateway up. -/
theorem cascade (small : cfg.maxNodes * CAPACITY < 2 ^ 32) (live : Live cfg s)
    (fits : ∑ i, (s.pushed i).length ≤ cfg.walCapacity) :
    Leads (step cfg) s fun t => Inv cfg t ∧ Matched s t ∧ t.publisher = .exited := by
  have keeps : ∀ (s : Server n) a s' e, Live cfg s → step cfg a s = some (s', e) → Live cfg s' :=
    fun _ _ _ _ live taken => step_live live taken
  have sequenced : Leads (step cfg) s fun t => Ready cfg t ∧ Joined s t ∧ t.sequencer = .exited := by
    apply (claims_return ⟨live.inv, live.claimed, fits⟩).trans
    rintro t ⟨ready, free, same⟩
    apply (gateways_stop small ready free).trans
    rintro u ⟨ready', stopped, same'⟩
    apply (gateways_joined ready' stopped (same'.trans same)).trans
    rintro v ⟨ready'', joined⟩
    exact sequencer_exits small ready'' joined
  have matched : Leads (step cfg) s fun t => Inv cfg t ∧ Sequenced s t ∧ t.matcher = .exited := by
    apply (sequenced.always keeps live).trans
    rintro t ⟨live', ready, joined, exited⟩
    exact matcher_exits small ready.inv ⟨joined, exited, live'.flagged.sequenced exited⟩
  apply (matched.always keeps live).trans
  rintro t ⟨live', inv, sequenced, exited⟩
  exact publisher_exits inv ⟨sequenced, exited, live'.flagged.matched exited⟩

/-- Whatever the threads are doing, the server can still be brought down: some schedule makes the
    gateways, the sequencer, the matcher and the publisher return, and then the log interleaves what the
    gateways were given, each order once, the matcher has been given the log, and its events have been
    handed over. The snapshot thread, which none of these waits for, is not part of `Server`. -/
theorem shutdown_completes (small : cfg.maxNodes * CAPACITY < 2 ^ 32) (reach : Reachable (step cfg) (create n cfg) s)
    (fits : ∑ i, (s.pushed i).length ≤ cfg.walCapacity) :
    Leads (step cfg) s fun t => t.Exited ∧ t.pushed = s.pushed ∧
      (∃ claimed : List (Fin n × Order), t.wal = stampFrom 0 (claimed.map Prod.snd) ∧
        ∀ i, (claimed.filter fun c => c.1 = i).map Prod.snd = s.pushed i) ∧
      t.wal.length = ∑ i, (s.pushed i).length ∧ t.submitted = t.wal ∧ t.batches.flatten = t.emitted := by
  apply (cascade small (reachable_live reach) fits).mono
  rintro t ⟨inv, matched, exited⟩
  rcases inv.wal_exited matched.sequencer with ⟨items, sent⟩
  rcases inv.submitted_exited matched.matcher with ⟨given, shown⟩
  have each : ∀ i, (t.mpsc.claimed.filter fun c => c.1 = i).map Prod.snd = s.pushed i := by
    intro i
    rw [inv.claimed_stopped i (matched.stopped i), matched.pushed]
  refine ⟨⟨matched.stopped, matched.sequencer, matched.matcher, exited⟩, matched.pushed, ⟨t.mpsc.claimed, items, each⟩, ?_,
    given.trans sent, (inv.batches_exited exited).trans shown⟩
  rw [items, stampFrom_length, MpscRing.items, List.length_map, ← sum_length_filter]
  apply Finset.sum_congr rfl
  intro i _
  rw [← List.length_map Prod.snd, each i]

/-- Two gateways are in the middle of their calls. -/
theorem shutdown_completes_midway : ∃ s : Server 2, Reachable (step smallConfig) (create 2 smallConfig) s ∧
    s.gateways 0 = .pushing soldOrder ∧ s.gateways 1 = .pushing boughtOrder ∧
    Leads (step smallConfig) s fun t => t.Exited ∧ t.pushed = s.pushed ∧
      (∃ claimed : List (Fin 2 × Order), t.wal = stampFrom 0 (claimed.map Prod.snd) ∧
        ∀ i, (claimed.filter fun c => c.1 = i).map Prod.snd = s.pushed i) ∧
      t.wal.length = ∑ i, (s.pushed i).length ∧ t.submitted = t.wal ∧ t.batches.flatten = t.emitted := by
  have ran : (Transition.run (step smallConfig) [.push 0 soldOrder, .push 1 boughtOrder, .gateway 0 false, .gateway 1 false,
      .sequencer] (create 2 smallConfig)).map (fun s => decide (s.gateways 0 = .pushing soldOrder ∧
        s.gateways 1 = .pushing boughtOrder ∧ ∑ i, (s.pushed i).length ≤ smallConfig.walCapacity)) = some true := by
    decide +kernel
  rcases Option.map_eq_some_iff.mp ran with ⟨s, taken, facts⟩
  rcases of_decide_eq_true facts with ⟨sold, bought, fits⟩
  have reach : Reachable (step smallConfig) (create 2 smallConfig) s := Reachable.start.run taken
  exact ⟨s, reach, sold, bought, shutdown_completes (by decide) reach fits⟩

end Server

end Titan
