import BlipMQ.Daemon.Sound

/-!
# Daemon — recovery after a crash

A new broker on the log of a crashed one, the clients subscribed again, the
log replayed. Replay knows of each consumer only the highest id it has
acked, so it returns exactly the unacked messages if and only if no consumer
acked a message and left an earlier one of the topic unacked.
-/

namespace BlipMQ.Daemon

open BlipMQ.Core
open Wal (WalRecord)

/-! ## Subscribing again -/

/-- A new broker on which each client of the list polls its topic at QoS1. -/
def resubscribe (config : BrokerConfig) (subs : List (String × String)) : Broker :=
  subs.foldl (fun b p => (b.subscribe p.1 p.2 .atLeastOnce).1) (.new config)

/-- Client `c` polls topic `t` as subscription `x` and has not received anything. -/
structure Polls (b : Broker) (x : Nat) (c t : String) : Prop where
  subscriber : ∃ sub, b.subscribers.lookup x = some sub ∧ sub.clientId = c ∧ sub.mode = .poll ∧
    sub.queue = .new .atLeastOnce b.config.perSubscriberQueueCapacity
  broadcasts : ∀ t', b.broadcasts t' x = if t' = t then 1 else 0

section Resubscribe

variable {b : Broker} {x : Nat} {c t : String}

theorem broadcasts_subscribe (b : Broker) (c t : String) (qos : QoSLevel) (t' : String) (x : Nat) :
    (b.subscribe c t qos).1.broadcasts t' x =
      b.broadcasts t' x + if t' = t ∧ x = b.nextSubscriptionId then 1 else 0 := by
  unfold Broker.broadcasts
  have htopics : (b.subscribe c t qos).1.topics.lookup t' =
      if t' = t then some ((b.topicOrNew t).add b.nextSubscriptionId none)
      else b.topics.lookup t' := lookup_insert_eq ..
  rw [htopics]
  by_cases ht : t' = t
  · subst ht
    have hone : List.count x [b.nextSubscriptionId] =
        if x = b.nextSubscriptionId then 1 else 0 := by
      by_cases hx : x = b.nextSubscriptionId
      · simp [hx]
      · have hne : ¬ b.nextSubscriptionId = x := fun he => hx he.symm
        simp [hx, hne]
    rw [if_pos rfl]
    cases hreg : b.topics.lookup t' <;> simp [Broker.topicOrNew, hreg, Topic.new, Topic.add, hone]
  · simp [ht]

/-- Subscribing as `x` the first time any topic sees this id. -/
theorem Polls.subscribe (hfresh : ∀ t', b.broadcasts t' b.nextSubscriptionId = 0) (c t : String) :
    Polls (b.subscribe c t .atLeastOnce).1 b.nextSubscriptionId c t := by
  refine ⟨⟨_, (lookup_insert_eq ..).trans (if_pos rfl), rfl, rfl, rfl⟩, fun t' => ?_⟩
  rw [broadcasts_subscribe, hfresh]
  simp

theorem Polls.later (h : Polls b x c t) (hx : x < b.nextSubscriptionId) (c' t' : String) :
    Polls (b.subscribe c' t' .atLeastOnce).1 x c t := by
  have hne : x ≠ b.nextSubscriptionId := Nat.ne_of_lt hx
  obtain ⟨sub, hsub, hrest⟩ := h.subscriber
  refine ⟨⟨sub, ?_, hrest⟩, fun u => ?_⟩
  · exact (lookup_insert_eq ..).trans ((if_neg hne).trans hsub)
  · rw [broadcasts_subscribe, h.broadcasts]
    simp [hne]

theorem Polls.foldl (h : Polls b x c t) (hx : x < b.nextSubscriptionId)
    (subs : List (String × String)) :
    Polls (subs.foldl (fun b p => (b.subscribe p.1 p.2 .atLeastOnce).1) b) x c t := by
  induction subs generalizing b with
  | nil => exact h
  | cons p subs ih => exact ih (h.later hx p.1 p.2) (Nat.lt_succ_of_lt hx)

theorem polls_foldl {subs : List (String × String)} {k : Nat}
    (hfresh : ∀ t' y, b.nextSubscriptionId ≤ y → b.broadcasts t' y = 0)
    (hk : subs[k]? = some (c, t)) :
    Polls (subs.foldl (fun b p => (b.subscribe p.1 p.2 .atLeastOnce).1) b)
      (b.nextSubscriptionId + k) c t := by
  induction subs generalizing b k with
  | nil => cases hk
  | cons p subs ih =>
    rw [List.foldl_cons]
    cases k with
    | zero =>
      cases hk
      have hnew := Polls.subscribe (fun t' => hfresh t' _ (Nat.le_refl _)) c t
      exact hnew.foldl (Nat.lt_succ_self _) subs
    | succ k =>
      have hnext : (b.subscribe p.1 p.2 .atLeastOnce).1.nextSubscriptionId + k =
          b.nextSubscriptionId + (k + 1) := by
        show b.nextSubscriptionId + 1 + k = _
        omega
      rw [← hnext]
      refine ih ?_ hk
      intro t' y hy
      replace hy : b.nextSubscriptionId + 1 ≤ y := hy
      have hne : y ≠ b.nextSubscriptionId := by omega
      rw [broadcasts_subscribe, hfresh t' y (by omega)]
      simp [hne]

theorem foldl_subscribe_config (b : Broker) (subs : List (String × String)) :
    (subs.foldl (fun b p => (b.subscribe p.1 p.2 .atLeastOnce).1) b).config = b.config := by
  induction subs generalizing b with
  | nil => rfl
  | cons p subs ih => exact ih _

theorem resubscribe_polls (config : BrokerConfig) {subs : List (String × String)} {k : Nat}
    (hk : subs[k]? = some (c, t)) : Polls (resubscribe config subs) (k + 1) c t := by
  rw [Nat.add_comm]
  exact polls_foldl (fun _ _ _ => rfl) hk

end Resubscribe

/-! ## What a client receives -/

/-- The WAL id, QoS and payload of what waits in a subscription's queue. -/
def received (b : Broker) (x : Nat) : Option (List (Option Nat × QoSLevel × Bytes)) :=
  (b.subscribers.lookup x).map fun sub =>
    sub.queue.waiting.map fun e => (e.walId, e.qos, e.payload)

/-- A message of the log as it waits in a QoS1 queue. -/
def queued (p : Nat × WalMessageRecord) : Option Nat × QoSLevel × Bytes :=
  (some p.1, p.2.qos, p.2.payload)

/-- A message of the log as replay offers it. -/
def replayed (p : Nat × WalMessageRecord) : Offer := ⟨some p.1, p.2.topic, p.2.payload, p.2.qos⟩

theorem effectiveQos_atLeastOnce (q : QoSLevel) :
    SubscriberQueue.effectiveQos .atLeastOnce q = q := by
  cases q <;> rfl

/-- Offers that fit wait in the queue in their order. -/
theorem waiting_foldl_enqueue {now : Nat} {ttl : Option Nat} {sub : Subscriber} {n : Nat}
    (hfilled : sub.queue.Filled n) (hqos : sub.queue.defaultQos = .atLeastOnce) (os : List Offer)
    (hcap : n + os.length ≤ sub.queue.capacity) (hlt : n + os.length < 2 ^ 64) :
    (os.foldl (fun sub o => sub.enqueue now o ttl) sub).queue.waiting.map
        (fun e => (e.walId, e.qos, e.payload)) =
      sub.queue.waiting.map (fun e => (e.walId, e.qos, e.payload)) ++
        os.map fun o => (o.walId, o.qos, o.payload) := by
  induction os generalizing sub n with
  | nil => simp
  | cons o os ih =>
    simp only [List.length_cons] at hcap hlt
    have hroom : n < sub.queue.capacity := by omega
    have hn : n + 1 < 2 ^ 64 := by omega
    have hwaiting : (sub.enqueue now o ttl).queue.waiting = sub.queue.waiting ++
        [⟨n + 1, o.payload, SubscriberQueue.effectiveQos sub.queue.defaultQos o.qos, o.walId, now,
          ttl, 0, now⟩] := hfilled.waiting_enqueue hroom hn
    have hcap' : n + 1 + os.length ≤ (sub.enqueue now o ttl).queue.capacity := by
      show n + 1 + os.length ≤ sub.queue.capacity
      omega
    have hrest :=
      @ih (sub.enqueue now o ttl) (n + 1) (hfilled.enqueue hroom hn) hqos hcap' (by omega)
    rw [List.foldl_cons, hrest, hwaiting, hqos, effectiveQos_atLeastOnce]
    simp

section Offers

variable {b : Broker} {x : Nat} {c t : String}

/-- A polling client is offered the messages of its topic beyond its cursor. -/
theorem Polls.offers (h : Polls b x c t) (cursors : MaxMap (String × String))
    (records : List WalRecord) :
    records.flatMap (b.replayOffers cursors x) = ((Log.messagesOf records).filter fun p =>
      cursors.get (c, t) < p.1 && p.2.topic = t).map replayed := by
  obtain ⟨sub, hsub, rfl, -⟩ := h.subscriber
  induction records with
  | nil => rfl
  | cons r records ih =>
    rw [List.flatMap_cons, ih, Log.messagesOf_cons, Broker.replayOffers]
    cases message? r with
    | none => rfl
    | some m =>
      have hbeyond : b.beyondCursor cursors m.topic r.id x =
          decide (cursors.get (sub.clientId, m.topic) < r.id) := by
        rw [Broker.beyondCursor, hsub]
      dsimp only
      rw [h.broadcasts, hbeyond]
      by_cases ht : m.topic = t
      · subst ht
        by_cases hid : cursors.get (sub.clientId, m.topic) < r.id
        · simp [hid, replayed]
        · simp [hid]
      · simp [ht]

/-- **What replay leaves in a polling client's queue**: the messages of its topic
beyond its highest ack in the log. -/
theorem received_replay {E : Externals} {now : Nat} {log : Log} {config : BrokerConfig}
    {subs : List (String × String)} {k : Nat} (hk : subs[k]? = some (c, t))
    (hcap : log.messages.length ≤ config.perSubscriberQueueCapacity) :
    received ((resubscribe config subs).replayFromWal E now log) (k + 1) =
      some (((log.messagesOn t).filter fun p =>
        (Broker.replayCursors log none).get (c, t) < p.1).map queued) := by
  have hpolls := resubscribe_polls config hk
  have hconfig : (resubscribe config subs).config = config := foldl_subscribe_config _ subs
  obtain ⟨sub, hsub, -, hmode, hqueue⟩ := hpolls.subscriber
  rw [hconfig] at hqueue
  obtain ⟨b₁, hserved, heq⟩ := Broker.replay_served E now log (resubscribe config subs) none
  have hlook := hserved.polled (k + 1) sub hsub hmode
  rw [Broker.replayStart, log.iterateFrom_one, hpolls.offers] at hlook
  -- the offers are messages of the log, so they fit
  have hlen : (((Log.messagesOf log.records).filter fun p =>
      (Broker.replayCursors log none).get (c, t) < p.1 && p.2.topic = t).map replayed).length ≤
        log.messages.length := by
    rw [List.length_map]
    exact List.length_filter_le _ _
  have hlt : log.messages.length < 2 ^ 64 :=
    Nat.lt_of_le_of_lt (List.length_filterMap_le _ _) log.length_records_lt
  have hfilled : sub.queue.Filled 0 := hqueue ▸ .new _ _
  have hwaiting := @waiting_foldl_enqueue now (some (resubscribe config subs).config.messageTtl)
    sub 0 hfilled (by rw [hqueue]; rfl) _
    (by rw [hqueue, Nat.zero_add]; exact Nat.le_trans hlen hcap)
    (by rw [Nat.zero_add]; exact Nat.lt_of_le_of_lt hlen hlt)
  rw [Broker.replayFromWal, heq, received]
  show (b₁.subscribers.lookup (k + 1)).map _ = _
  rw [hlook, Option.map_some, hwaiting, hqueue, Log.messagesOn, List.filter_filter, List.map_map]
  rfl

end Offers

/-! ## Exactly the unacked messages -/

/-- The messages of a topic that a client has not acked, in log order. -/
def State.unacked (s : State) (clientId topic : String) : List (Nat × WalMessageRecord) :=
  (s.log.messagesOn topic).filter fun p => ⟨clientId, topic, p.1⟩ ∉ s.acks

variable {E : Externals} {config : BrokerConfig} {acts : List Action} {s : State}

/-- **Recovery returns exactly the unacked messages, if and only if** no client
acked a message and left an earlier one of the topic unacked. -/
theorem replay_redelivers_unacked_iff (hrun : run (step E) (start E config) acts = some s)
    (hjournaled : s.Journaled) (config' : BrokerConfig) (subs : List (String × String))
    (hcap : s.log.messages.length ≤ config'.perSubscriberQueueCapacity) (now : Nat) :
    (∀ k c t, subs[k]? = some (c, t) →
        received ((resubscribe config' subs).replayFromWal E now s.log) (k + 1) =
          some ((s.unacked c t).map queued)) ↔
      ∀ c t, (c, t) ∈ subs → ∀ i, ⟨c, t, i⟩ ∈ s.acks → ∀ p ∈ s.log.messagesOn t, p.1 ≤ i →
        ⟨c, t, p.1⟩ ∈ s.acks := by
  have hsound := sound_of_run hrun
  constructor
  · intro h c t hmem i hi p hp hle
    obtain ⟨k, hk⟩ := List.mem_iff_getElem?.mp hmem
    have heq := h k c t hk
    rw [received_replay hk hcap, Option.some.injEq] at heq
    by_contra hunacked
    -- an unacked message at or below an acked one is missing from the queue
    have hin : queued p ∈ (s.unacked c t).map queued :=
      List.mem_map_of_mem (List.mem_filter.mpr ⟨hp, by simpa using hunacked⟩)
    rw [← heq] at hin
    obtain ⟨q, hq, hqp⟩ := List.mem_map.mp hin
    have hid : q.1 = p.1 := Option.some.inj (congrArg Prod.fst hqp)
    have hlt := of_decide_eq_true (List.mem_filter.mp hq).2
    have hpos : 0 < p.1 := Log.pos_of_mem_messagesOn hp
    rw [hid] at hlt
    have := (cursor_lt_iff hsound hjournaled hpos).mp hlt i hi
    omega
  · intro h k c t hk
    have hmem : (c, t) ∈ subs := List.mem_of_getElem? hk
    rw [received_replay hk hcap, State.unacked]
    congr 2
    refine List.filter_congr fun p hp => ?_
    have hpos : 0 < p.1 := Log.pos_of_mem_messagesOn hp
    rw [decide_eq_decide, cursor_lt_iff hsound hjournaled hpos]
    constructor
    · intro hall hacked
      exact Nat.lt_irrefl _ (hall p.1 hacked)
    · intro hunacked i hi
      by_contra hle
      exact hunacked (h c t hmem i hi p hp (by omega))

/-- Client `c` polls topic `t`, and two messages are published and handed out to
it, under tags 1 and 2. -/
def twoDelivered : List Action :=
  [.subscribe "c" "t" .atLeastOnce none .poll none,
    .append ⟨"t", .atLeastOnce, [7]⟩ false, .fanOut 0 0,
    .append ⟨"t", .atLeastOnce, [8]⟩ false, .fanOut 0 0, .poll 1 0, .poll 1 0]

theorem replay_redelivers_unacked_after_first_ack :
    ∃ s, run (step plainExternals) (start plainExternals .default)
        (twoDelivered ++ [.ack 1 1, .journal 0 false]) = some s ∧
      received ((resubscribe .default [("c", "t")]).replayFromWal plainExternals 0 s.log) 1 =
        some [(some 2, .atLeastOnce, [8])] := by
  obtain ⟨s, hs, hjournaled, hmade, hmessages⟩ : ∃ s, run (step plainExternals)
      (start plainExternals .default) (twoDelivered ++ [.ack 1 1, .journal 0 false]) = some s ∧
        s.Journaled ∧ s.acks = [⟨"c", "t", 1⟩] ∧
        s.log.messages = [(1, ⟨"t", .atLeastOnce, [7]⟩), (2, ⟨"t", .atLeastOnce, [8]⟩)] := by
    decide +kernel
  have hon : s.log.messagesOn "t" =
      [(1, ⟨"t", .atLeastOnce, [7]⟩), (2, ⟨"t", .atLeastOnce, [8]⟩)] := by
    rw [Log.messagesOn, hmessages]
    decide
  have hunacked : (s.unacked "c" "t").map queued = [(some 2, .atLeastOnce, [8])] := by
    rw [State.unacked, hon, hmade]
    decide
  have hiff := replay_redelivers_unacked_iff hs hjournaled .default [("c", "t")]
    (by rw [hmessages]; decide) 0
  refine ⟨s, hs, ?_⟩
  rw [hiff.mpr ?_ 0 "c" "t" rfl, hunacked]
  intro c t hmem i hi p hp hle
  obtain ⟨rfl, rfl⟩ := Prod.mk.inj (List.mem_singleton.mp hmem)
  rw [hmade] at hi ⊢
  rw [hon] at hp
  obtain ⟨-, -, rfl⟩ := WalAckRecord.mk.inj (List.mem_singleton.mp hi)
  rcases List.mem_cons.mp hp with rfl | hp
  · decide
  · rw [List.mem_singleton.mp hp] at hle
    exact absurd hle (by decide)

/-- The second message is acked and the first is not: replay loses the first. -/
theorem replay_skips_message_below_ack :
    ∃ s, run (step plainExternals) (start plainExternals .default)
        (twoDelivered ++ [.ack 1 2, .journal 0 false]) = some s ∧
      s.Journaled ∧
      s.log.messages.length ≤ BrokerConfig.default.perSubscriberQueueCapacity ∧
      (s.unacked "c" "t").map queued = [(some 1, .atLeastOnce, [7])] ∧
      received ((resubscribe .default [("c", "t")]).replayFromWal plainExternals 0 s.log) 1 =
        some [] := by
  decide +kernel

end BlipMQ.Daemon
