import BlipMQ.Daemon.Session
import BlipMQ.Net.Handler

/-!
# Daemon — after a restart

The daemon replays the log before it accepts connections, into a broker that
has no subscriptions. What a process offers its subscribers is therefore what
it published itself: nothing of the log it started on reaches a client that
subscribes without an offset.
-/

namespace BlipMQ.Daemon

open BlipMQ.Core

variable {E : Externals} {s s' : State} {a : Action} {n : Nat}

/-- Whatever is on offer has an id from `n` on. -/
structure OffersFrom (n : Nat) (s : State) : Prop where
  nextId : n ≤ s.log.nextId
  publishing : ∀ p ∈ s.publishing, n ≤ p.walId
  offered : ∀ x l, s.broker.ledger? x = some l → ∀ o ∈ l.offered, ∀ i, o.walId = some i → n ≤ i

/-- Replay into a broker without subscribers leaves it without. -/
theorem ledger?_boot (config : BrokerConfig) (now : Nat) (log : Log) (checkpoint : Option Bytes)
    (x : Nat) : (boot E config now log checkpoint).broker.ledger? x = none :=
  (Broker.ledger?_replay E now log (.new config) _ x).trans rfl

theorem OffersFrom.boot (config : BrokerConfig) (now : Nat) (log : Log)
    (checkpoint : Option Bytes) : OffersFrom log.nextId (boot E config now log checkpoint) where
  nextId := Nat.le_refl _
  publishing := nofun
  offered := fun x l hl => by
    rw [ledger?_boot] at hl
    cases hl

theorem OffersFrom.fanOut {broker : Broker} {p : Publication} {ids : List Nat} {i : Nat}
    (h : OffersFrom n s) (hp : s.publishing[i]? = some p)
    (hpub : s.broker.Publishes broker p.offer ids) :
    OffersFrom n { s with broker := broker, publishing := s.publishing.eraseIdx i } := by
  refine ⟨h.nextId, fun q hq => h.publishing q (List.mem_of_mem_eraseIdx hq), ?_⟩
  intro x l hl o ho j hj
  obtain ⟨l₀, hl₀, rfl⟩ := Option.map_eq_some_iff.mp ((hpub.ledger x).symm.trans hl)
  rcases List.mem_append.mp ho with ho | ho
  · exact h.offered x l₀ hl₀ o ho j hj
  · rw [List.eq_of_mem_replicate ho] at hj
    cases hj
    exact h.publishing p (List.mem_of_getElem? hp)

theorem OffersFrom.step (h : OffersFrom n s) (hs : Daemon.step E s a = some s') :
    OffersFrom n s' := by
  cases step_effect hs with
  | quiet hq _ => exact ⟨h.nextId, h.publishing, fun x l hl => h.offered x l ((hq.ledger x) ▸ hl)⟩
  | subscribed _ hsub =>
    refine ⟨h.nextId, h.publishing, ?_⟩
    intro x l hl
    replace hl := (hsub.ledger x).symm.trans hl
    split at hl
    · cases hl
      rw [hsub.fresh.1]
      exact nofun
    · exact h.offered x l hl
  | @skipped _ log hskip =>
    have hnext := (Log.skipId_spec hskip).2
    have hle := h.nextId
    exact ⟨by show n ≤ log.nextId; omega, h.publishing, h.offered⟩
  | @refused i log hskip =>
    have hnext := (Log.skipId_spec hskip).2
    have hle := h.nextId
    exact ⟨by show n ≤ log.nextId; omega, h.publishing, h.offered⟩
  | @appended _ log message roll payload hencode happend =>
    have hnext := (Log.append_spec happend).2
    have hle := h.nextId
    exact ⟨by show n ≤ log.nextId; omega, forall_mem_concat h.publishing hle, h.offered⟩
  | fannedOut hp hpub => exact h.fanOut hp hpub
  | @acked x tag ack broker journaling hack hj =>
    refine ⟨h.nextId, h.publishing, ?_⟩
    intro y l hl
    obtain ⟨l₀, hl₀, rfl⟩ := Option.map_eq_some_iff.mp ((hack.ledger y).symm.trans hl)
    have hold := h.offered y l₀ hl₀
    split <;> exact hold
  | @journaled i roll ack payload log hack hencode happend =>
    have hnext := (Log.append_spec happend).2
    have hle := h.nextId
    exact ⟨by show n ≤ log.nextId; omega, h.publishing, h.offered⟩
  | compacted hpos => exact ⟨h.nextId, h.publishing, h.offered⟩

/-- **A process offers only what it appended itself.** -/
theorem offersFrom_of_run {config : BrokerConfig} {now : Nat} {log : Log}
    {checkpoint : Option Bytes} {acts : List Action}
    (hrun : run (step E) (boot E config now log checkpoint) acts = some s) :
    OffersFrom log.nextId s :=
  run_invariant (fun _ _ _ h hs => h.step hs) (.boot config now log checkpoint) hrun

/-! ## Subscribing after a restart -/

/-- The messages of a topic that nobody has acked, in log order. -/
def State.unackedOn (s : State) (topic : String) : List (Nat × WalMessageRecord) :=
  (s.log.messagesOn topic).filter fun p => ∀ a ∈ s.acks, a.topic = topic → a.ackedWalId ≠ p.1

/-- The subscription was offered the message under this id, by fan-out or by
replay; nothing is delivered without that. -/
def State.Offered (s : State) (subId walId : Nat) : Prop :=
  ∃ l, s.broker.ledger? subId = some l ∧ ∃ o ∈ l.offered, o.walId = some walId

theorem OffersFrom.not_offered (h : OffersFrom n s) {x i : Nat} (hlt : i < n) :
    ¬ s.Offered x i := by
  rintro ⟨l, hl, o, ho, hid⟩
  have hge := h.offered x l hl o ho i hid
  omega

section Subscribed

variable {config : BrokerConfig} {now now' : Nat} {log : Log} {checkpoint : Option Bytes}
  {acts₁ acts₂ : List Action} {s₁ s₂ : State} {connId slot : Nat} {frame : Net.Frame}
  {payload : Net.SubscribePayload} {qos : QoSLevel}

/-- A plain SUBSCRIBE is a step like any other. -/
theorem offersFrom_after_subscribe
    (hup : run (step E) (boot E config now log checkpoint) acts₁ = some s₁)
    (hdecode : Net.SubscribePayload.decode frame.payload = .ok payload)
    (hcheck : Net.checkSubscribe payload = .ok qos) (hgroup : payload.group = none)
    (hoffset : payload.fromOffset = none)
    (hafter : run (step E)
      { s₁ with broker := (Net.handleSubscribeSlot E now' s₁.log s₁.broker connId frame slot).1 }
      acts₂ = some s₂) : OffersFrom log.nextId s₂ := by
  have hsubscribe : step E s₁ (.subscribe (Net.clientIdOf connId) payload.topic qos (some connId)
      (.slot slot) none) = some { s₁ with
        broker := (Net.handleSubscribeSlot E now' s₁.log s₁.broker connId frame slot).1 } := by
    rw [Net.handleSubscribeSlot_plain hdecode hcheck hgroup hoffset]
    rfl
  refine run_invariant (fun _ _ _ h hs => h.step hs) ?_ hafter
  exact (offersFrom_of_run hup).step hsubscribe

/-- The daemon stopped in state `s` and came up again on its log. **A client that
then sends a plain SUBSCRIBE is offered every unacked message of the topic, if
and only if there is none.** -/
theorem restart_offers_unacked_iff
    (hup : run (step E) (boot E config now s.log checkpoint) acts₁ = some s₁)
    (hdecode : Net.SubscribePayload.decode frame.payload = .ok payload)
    (hcheck : Net.checkSubscribe payload = .ok qos) (hgroup : payload.group = none)
    (hoffset : payload.fromOffset = none)
    (hafter : run (step E)
      { s₁ with broker := (Net.handleSubscribeSlot E now' s₁.log s₁.broker connId frame slot).1 }
      acts₂ = some s₂) :
    (∀ p ∈ s.unackedOn payload.topic, s₂.Offered s₁.broker.nextSubscriptionId p.1) ↔
      s.unackedOn payload.topic = [] := by
  have hfrom := offersFrom_after_subscribe hup hdecode hcheck hgroup hoffset hafter
  constructor
  · intro h
    refine List.eq_nil_iff_forall_not_mem.mpr fun p hp => ?_
    obtain ⟨r, hr, -, hid, -⟩ := Log.mem_messagesOn.mp (List.mem_filter.mp hp).1
    exact hfrom.not_offered (hid ▸ (s.log.bounded r hr).2) (h p hp)
  · intro h p hp
    rw [h] at hp
    cases hp

end Subscribed

/-- A plain SUBSCRIBE for topic `t` at QoS1. -/
def subscribeT : Net.Frame := ⟨.subscribe, 9, [0, 1, 0x74, 1]⟩

theorem decode_subscribeT :
    Net.SubscribePayload.decode subscribeT.payload = .ok ⟨"t", 1, none, none⟩ := by
  decide +kernel

theorem checkSubscribe_subscribeT :
    Net.checkSubscribe ⟨"t", 1, none, none⟩ = .ok .atLeastOnce := by
  decide +kernel

/-- A message of `t` is published and pushed to connection 1, under tag 1. -/
def onePushed : List Action :=
  [.subscribe "conn-1" "t" .atLeastOnce (some 1) (.slot 1) none,
    .append ⟨"t", .atLeastOnce, [7]⟩ false, .fanOut 0 0]

/-- The process that comes up on the log of `s`, with connection 2 subscribed. -/
def subscribedAgain (s : State) : State :=
  let up := boot plainExternals .default 0 s.log s.checkpoint
  { up with broker := (Net.handleSubscribeSlot plainExternals 0 up.log up.broker 2 subscribeT 1).1 }

/-- The message is acked, the daemon restarts, and another one is published. -/
theorem restart_offers_unacked_after_ack :
    ∃ s s₂ x, run (step plainExternals) (start plainExternals .default)
        (onePushed ++ [.ack 1 1, .journal 0 false]) = some s ∧
      run (step plainExternals) (subscribedAgain s)
        [.append ⟨"t", .atLeastOnce, [8]⟩ false, .fanOut 0 0] = some s₂ ∧
      ∀ p ∈ s.unackedOn "t", s₂.Offered x p.1 := by
  obtain ⟨s, hs, hnone, s₂, hs₂, -⟩ : ∃ s, run (step plainExternals)
      (start plainExternals .default) (onePushed ++ [.ack 1 1, .journal 0 false]) = some s ∧
        s.unackedOn "t" = [] ∧ ∃ s₂, run (step plainExternals) (subscribedAgain s)
          [.append ⟨"t", .atLeastOnce, [8]⟩ false, .fanOut 0 0] = some s₂ ∧ True := by
    decide +kernel
  have hup : run (step plainExternals) (boot plainExternals .default 0 s.log s.checkpoint) [] =
      some (boot plainExternals .default 0 s.log s.checkpoint) := rfl
  exact ⟨s, s₂, _, hs, hs₂, (restart_offers_unacked_iff hup decode_subscribeT
    checkSubscribe_subscribeT rfl rfl hs₂).mpr hnone⟩

/-- The message is not acked before the stop: whatever happens after the restart,
the client that subscribes is not offered it. -/
theorem restart_withholds_unacked_message :
    ∃ s, run (step plainExternals) (start plainExternals .default) onePushed = some s ∧
      s.unackedOn "t" = [(1, ⟨"t", .atLeastOnce, [7]⟩)] ∧
      ∀ acts s₂, run (step plainExternals) (subscribedAgain s) acts = some s₂ →
        ∀ x, ¬ s₂.Offered x 1 := by
  obtain ⟨s, hs, hnext, hunacked⟩ : ∃ s, run (step plainExternals)
      (start plainExternals .default) onePushed = some s ∧ 1 < s.log.nextId ∧
        s.unackedOn "t" = [(1, ⟨"t", .atLeastOnce, [7]⟩)] := by decide +kernel
  refine ⟨s, hs, hunacked, fun acts s₂ hafter x => ?_⟩
  have hup : run (step plainExternals) (boot plainExternals .default 0 s.log s.checkpoint) [] =
      some (boot plainExternals .default 0 s.log s.checkpoint) := rfl
  have hfrom := offersFrom_after_subscribe hup decode_subscribeT checkSubscribe_subscribeT rfl rfl
    hafter
  exact hfrom.not_offered hnext

end BlipMQ.Daemon
